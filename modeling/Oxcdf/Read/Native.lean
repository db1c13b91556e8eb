import Oxcdf.Read.Reported

/-! The byte order of what a read returns.

Enumerations and arrays are built over one kind of numeric leaf, which carries the
order. The swap looks at the outermost class alone: a leaf that is itself the type
of the dataset comes out in native order, one below another class as it is stored.
-/

set_option autoImplicit false

namespace Oxcdf

open Foundation Foundation.Buffer

section Leaves

mutual

/-- The byte order and the width of the leaves of a numeric type. -/
def Datatype.leaf : Datatype → Option (ByteOrder × Nat)
  | ⟨_, size, class_⟩ => class_.leaf size

def DatatypeClass.leaf : DatatypeClass → Nat → Option (ByteOrder × Nat)
  | .fixedPoint order .., size => some (order, size)
  | .floatingPoint order .., size => some (order, size)
  | .enumeration base .., _ => base.leaf
  | .array _ base, _ => base.leaf
  | _, _ => none

end

mutual

/-- Where the leaves of an element start in it. -/
def Datatype.leafOffsets : Datatype → List Nat
  | ⟨_, _, class_⟩ => class_.leafOffsets

def DatatypeClass.leafOffsets : DatatypeClass → List Nat
  | .fixedPoint .. | .floatingPoint .. => [0]
  | .enumeration base .. => base.leafOffsets
  | .array dims base =>
    (List.range dims.prod).flatMap fun i => base.leafOffsets.map (i * base.size + ·)
  | _ => []

end

mutual

/-- Whether the width of every type is the width of what it is built from. -/
def Datatype.tiled : Datatype → Bool
  | ⟨_, size, class_⟩ => class_.tiled size

def DatatypeClass.tiled : DatatypeClass → Nat → Bool
  | .enumeration base .., size => base.tiled && size = base.size
  | .array dims base, size => base.tiled && size = dims.prod * base.size
  | _, _ => true

end

mutual

theorem Datatype.isDecodable_of_leaf : ∀ {type : Datatype} {leaf : ByteOrder × Nat},
    type.leaf = some leaf → type.isDecodable = true
  | ⟨_, _, _⟩, _, found => DatatypeClass.isDecodable_of_leaf found

theorem DatatypeClass.isDecodable_of_leaf : ∀ {class_ : DatatypeClass} {size : Nat} {leaf : ByteOrder × Nat},
    class_.leaf size = some leaf → class_.isDecodable = true
  | .fixedPoint .., _, _, _ | .floatingPoint .., _, _, _ | .enumeration .., _, _, _ => rfl
  | .array _ base, _, _, found => base.isDecodable_of_leaf found

end

/-- Blocks of multiples of a width, one after the other, are the multiples of it. -/
theorem flatMap_multiples (blocks leaves width : Nat) :
    (List.range blocks).flatMap (fun i =>
      ((List.range leaves).map (· * width)).map (i * (leaves * width) + ·)) =
      (List.range (blocks * leaves)).map (· * width) := by
  induction blocks with
  | zero => simp
  | succ blocks ih =>
    rw [List.range_succ, List.flatMap_append, ih, Nat.succ_mul, List.range_add, List.map_append]
    simp [Function.comp_def, Nat.add_mul, Nat.mul_assoc]

mutual

/-- Where the widths agree, the leaves lie side by side and fill the element. -/
theorem Datatype.leafOffsets_of_tiled : ∀ {type : Datatype} {order : ByteOrder} {width : Nat},
    type.tiled = true → type.leaf = some (order, width) →
      ∃ leaves, type.size = leaves * width ∧ type.leafOffsets = (List.range leaves).map (· * width)
  | ⟨_, _, _⟩, _, _, tiled, found => DatatypeClass.leafOffsets_of_tiled tiled found

theorem DatatypeClass.leafOffsets_of_tiled : ∀ {class_ : DatatypeClass} {size : Nat}
    {order : ByteOrder} {width : Nat},
    class_.tiled size = true → class_.leaf size = some (order, width) →
      ∃ leaves, size = leaves * width ∧ class_.leafOffsets = (List.range leaves).map (· * width)
  | .fixedPoint .., size, _, _, _, rfl | .floatingPoint .., size, _, _, _, rfl =>
    ⟨1, (Nat.one_mul size).symm, by simp [DatatypeClass.leafOffsets]⟩
  | .enumeration base _ _, _, _, _, tiled, found => by
    simp only [DatatypeClass.tiled, Bool.and_eq_true, decide_eq_true_eq] at tiled
    rw [tiled.2]
    exact base.leafOffsets_of_tiled tiled.1 found
  | .array dims base, _, _, width, tiled, found => by
    simp only [DatatypeClass.tiled, Bool.and_eq_true, decide_eq_true_eq] at tiled
    obtain ⟨leaves, size, offsets⟩ := base.leafOffsets_of_tiled tiled.1 found
    refine ⟨dims.prod * leaves, by rw [tiled.2, size, Nat.mul_assoc], ?_⟩
    rw [DatatypeClass.leafOffsets, offsets, size, flatMap_multiples]

end

end Leaves

end Oxcdf

namespace Oxcdf.Read

open Foundation Foundation.Buffer

variable {build : Build} {ctx : Ctx} {codecs : Codecs} {dataset : DatasetIndex} {slab : Hyperslab}

section Length

variable {total : Nat}

theorem copyChunks_length (decodedLen : Nat) (chunkShape chunkStrides dstStrides : List Nat) (elementSize : Nat)
    (records : List ChunkRecord) :
    Writes total (fun _ => True) (copyChunks build ctx codecs dataset decodedLen chunkShape
      chunkStrides dstStrides
      slab elementSize records) := by
  induction records with
  | nil => exact Writes.pure trivial
  | cons record records ih =>
    cases overlap : clip record.offset chunkShape slab.start slab.count with
    | none =>
      rw [copyChunks_none build overlap]
      exact ih
    | some part =>
      rw [copyChunks_some build overlap]
      apply Writes.after (Session.Yields.trivial _)
      intro decoded _
      split
      · exact Writes.fail _ (by simp)
      · apply Writes.after (Session.Yields.trivial _)
        intro nexts _
        exact (Writes.storeEach fun _ _ _ => trivial).bind ih fun _ _ _ _ => trivial

/-- Copying the stored data writes into the buffer and nowhere else. -/
theorem readStored_length (chunks : Option (List ChunkRecord)) (elementSize : Nat) :
    Writes total (fun _ => True) (readStored build ctx codecs dataset chunks slab elementSize) := by
  unfold readStored
  split
  · unfold copyFromDense
    simp only [Session.lift_bind]
    apply Writes.after (Session.Yields.trivial _)
    intro runs _
    exact Writes.storeEach fun _ _ _ => trivial
  · exact Writes.pure trivial
  · unfold readContiguous
    apply Writes.after (Session.Yields.trivial _)
    intro runs _
    exact (readRuns_writes build ctx _ _ runs).imp fun _ _ _ => trivial
  · split
    · exact Writes.fail _ (by simp)
    · unfold readChunked
      simp only
      split
      · exact Writes.fail _ (by simp)
      · apply Writes.after (Session.Yields.trivial _)
        intro dstStrides _
        apply Writes.after (Session.Yields.trivial _)
        intro decodedLen _
        apply Writes.after (Session.Yields.trivial _)
        intro chunkStrides _
        apply Writes.after (Session.Yields.trivial _)
        intro needed _
        apply Writes.after (Session.Yields.trivial _)
        intro _ _
        exact copyChunks_length _ _ _ _ _ _

end Length

/-- What a read copies for its selection, in the order in which it is stored. -/
def Stored (build : Build) (ctx : Ctx) (codecs : Codecs) (dataset : DatasetIndex) (slab : Hyperslab)
    (caches : Caches) (stored : Bytes) : Prop :=
  ∃ chunks after, resolvedIndex dataset = .ok chunks ∧
    readStored build ctx codecs dataset chunks slab dataset.elementSize
      (startBuffer dataset chunks slab (List.replicate (slab.elementCount * dataset.elementSize) 0)
        dataset.elementSize) caches = (.ok stored, after)

theorem Stored.length {caches : Caches} {stored : Bytes}
    (held : Stored build ctx codecs dataset slab caches stored) :
    stored.length = slab.elementCount * dataset.elementSize := by
  obtain ⟨chunks, after, -, read⟩ := held
  exact (readStored_length chunks _).length_eq (startBuffer_length chunks _) read

section Native

/-- The stored byte of a leaf that comes to a position of it in native order. -/
def leafByte (order : ByteOrder) (width j : Nat) : Nat :=
  match order with
  | .little => j
  | .big => width - 1 - j

/-- Whether every leaf of a number of elements is the stored one in native order. -/
def NativeLeaves (type : Datatype) (order : ByteOrder) (width elements : Nat) (stored out : Bytes) : Prop :=
  ∀ k < elements, ∀ o ∈ type.leafOffsets, o + width ≤ type.size → ∀ j < width,
    out[k * type.size + o + j]? = stored[k * type.size + o + leafByte order width j]?

variable {type : Datatype} {order : ByteOrder} {width : Nat}

/-- A type with a byte order is its own leaf, and any other carries its leaves below it. -/
theorem byteOrder_cases (numeric : type.leaf = some (order, width)) :
    type.class_.isVariableLength = false ∧
      (type.byteOrder = some order ∧ type.size = width ∧ type.leafOffsets = [0] ∨ type.byteOrder = none) := by
  obtain ⟨version, size, class_⟩ := type
  cases class_ with
  | fixedPoint | floatingPoint =>
    cases numeric
    exact ⟨rfl, .inl ⟨rfl, rfl, rfl⟩⟩
  | enumeration | array => exact ⟨rfl, .inr rfl⟩
  | string | opaqueBlob | compound | reference | variableLength | unsupported => cases numeric

/-- Leaves that are their own type are swapped where they are big-endian; leaves below another class
are returned as they are stored. -/
theorem nativeLeaves_iff (numeric : dataset.datatype.leaf = some (order, width)) {elements : Nat}
    {stored : Bytes} (long : stored.length = elements * dataset.elementSize) :
    NativeLeaves dataset.datatype order width elements stored (nativeOrder dataset stored dataset.elementSize) ↔
      dataset.datatype.byteOrder.isSome ∨ order = .little ∨
        NativeLeaves dataset.datatype .big width elements stored stored := by
  obtain ⟨fixed, ⟨swapped, size, offsets⟩ | unordered⟩ := byteOrder_cases numeric
  · refine iff_of_true (fun k inside o member _ j bound => ?_) (.inl (swapped ▸ rfl))
    rw [offsets, List.mem_singleton] at member
    subst member
    have whole : (k + 1) * dataset.elementSize ≤ stored.length := long ▸ Nat.mul_le_mul_right _ inside
    have place : nativeByte dataset j = leafByte order width j := by
      unfold nativeByte leafByte
      rw [fixed, swapped]
      cases order with
      | little => simp
      | big => simp [DatasetIndex.elementSize, size]
    rw [← place]
    exact getElem?_nativeOrder whole (show j < dataset.datatype.size from size ▸ bound)
  · have kept : nativeOrder dataset stored dataset.elementSize = stored := by simp [nativeOrder, unordered]
    rw [kept, unordered]
    cases order with
    | little => simp [NativeLeaves, leafByte]
    | big => simp

/-- A big-endian leaf of two bytes or more, below the class of the type, inside an element. -/
def Skipped (type : Datatype) (order : ByteOrder) (width : Nat) : Prop :=
  type.byteOrder = none ∧ order = .big ∧ 1 < width ∧ ∃ o ∈ type.leafOffsets, o + width ≤ type.size

theorem nativeLeaves_of_short {elements : Nat} (stored : Bytes)
    (short : ¬ (1 < width ∧ ∃ o ∈ type.leafOffsets, o + width ≤ type.size)) :
    NativeLeaves type .big width elements stored stored := by
  intro k _ o member fits j bound
  have single : width ≤ 1 := Nat.le_of_not_lt fun wide => short ⟨wide, o, member, fits⟩
  have only : leafByte .big width j = j := by
    change width - 1 - j = j
    omega
  rw [only]

end Native

section Compact

/-- One element, stored in the object header. -/
def oneElement (type : Datatype) (data : Bytes) : DatasetIndex where
  path := "/v"
  shape := []
  datatype := type
  layout := .compact data
  pipeline := { filters := [] }
  fillValue := { bytes := none }
  chunks := none

theorem denseWrite_whole {data : Bytes} {size : Nat} (long : data.length = size) (small : size < wordSize) :
    denseWrite build data size ⟨0, 0, 1⟩ = .ok ⟨0, data⟩ := by
  have whole : range data 0 (0 + data.length) = (.ok (slice data 0 data.length) : Code Bytes) :=
    range_of_le data (Nat.zero_add data.length).le
  have all : slice data 0 data.length = data := List.take_length
  simp only [denseWrite, Build.mul, Build.add, Nat.zero_mul, Nat.one_mul, Nat.zero_add,
    Build.word_of_lt build wordSize_pos, Build.word_of_lt build small, Outcome.ok_bind]
  rw [← long, if_neg (Nat.lt_irrefl _), ← Nat.zero_add data.length, whole, all]
  rfl

theorem oneElement_stored {type : Datatype} {data : Bytes} (long : data.length = type.size)
    (small : type.size < wordSize) (caches : Caches) :
    Stored build ctx codecs (oneElement type data) ⟨[], []⟩ caches data := by
  refine ⟨none, caches, rfl, ?_⟩
  have one : elementCount [] = 1 := rfl
  have blank : (List.replicate (1 * type.size) (0 : UInt8)).length = data.length := by
    rw [List.length_replicate, long, Nat.one_mul]
  change (Session.lift (copyFromDense build (List.replicate (1 * type.size) 0) data [] ⟨[], []⟩ type.size) :
    Session Caches Error Bytes) caches = _
  have runs : forEachRun build [] ⟨[], []⟩ = .ok [.ok ⟨0, 0, 1⟩] := rfl
  rw [copyFromDense, runs, Outcome.ok_bind, List.map_singleton, Outcome.ok_bind, denseWrite_whole long small,
    storeEach, Outcome.ok_bind, store_of_fits (by simp [Write.Fits, long]), Outcome.ok_bind, storeEach,
    splice, List.take_zero, List.nil_append, List.drop_eq_nil_of_le (by simp [long]), List.append_nil]
  rfl

/-- The first byte of one leaf is set, and no other byte of the element. -/
def marked (size o : Nat) : Bytes := (List.replicate size 0).set o 1

theorem marked_length (size o : Nat) : (marked size o).length = size := by simp [marked]

/-- A marked leaf of two bytes or more differs from its reverse. -/
theorem marked_not_native {type : Datatype} {width o : Nat} (wide : 1 < width) (member : o ∈ type.leafOffsets)
    (fits : o + width ≤ type.size) :
    ¬ NativeLeaves type .big width 1 (marked type.size o) (marked type.size o) := by
  intro native
  have same := native 0 Nat.one_pos o member fits 0 (by omega)
  have set_ : (marked type.size o)[o]? = some 1 := by
    simp [marked, show o < type.size by omega]
  have clear : (marked type.size o)[o + (width - 1)]? = some 0 := by
    rw [marked, List.getElem?_set_ne (by omega), List.getElem?_replicate, if_pos (by omega)]
  simp [leafByte, set_, clear] at same

end Compact

section Reads

variable {caches after : Caches} {raw : RawData}

theorem Stored.unique {first second : Bytes} (one : Stored build ctx codecs dataset slab caches first)
    (other : Stored build ctx codecs dataset slab caches second) : first = second := by
  obtain ⟨chunks, _, resolved, read⟩ := one
  obtain ⟨chunks', _, resolved', read'⟩ := other
  cases resolved.symm.trans resolved'
  cases read.symm.trans read'
  rfl

theorem readHyperslab_stored (valid : slab.validate dataset.shape = .ok ())
    (read : readHyperslab build ctx codecs dataset slab caches = (.ok raw, after)) :
    ∃ stored, Stored build ctx codecs dataset slab caches stored ∧
      raw.bytes = nativeOrder dataset stored dataset.elementSize := by
  have unwrapped := read
  unfold readHyperslab at unwrapped
  rw [valid, Session.bind_lift_ok] at unwrapped
  split at unwrapped
  · cases unwrapped
  · obtain ⟨_, _, _, unwrapped⟩ := Session.bind_eq_ok.mp unwrapped
    obtain ⟨chunks, _, resolved, _⟩ := Session.bind_eq_ok.mp unwrapped
    have resolved := (Session.lift_eq_ok.mp resolved).1
    obtain ⟨_, total, stored, fits, _, copied, rfl⟩ := (readHyperslab_eq_ok valid resolved).mp read
    obtain ⟨rfl, _⟩ := checkedMul_eq_some fits
    exact ⟨stored, ⟨chunks, after, resolved, copied⟩, rfl⟩

theorem oneElement_read {type : Datatype} {leaf : ByteOrder × Nat}
    (numeric : type.leaf = some leaf) {data : Bytes}
    (held : Stored build ctx codecs (oneElement type data) ⟨[], []⟩ caches data) (word : type.size < 2 ^ 32) :
    ∃ raw after, readHyperslab build ctx codecs (oneElement type data) ⟨[], []⟩ caches = (.ok raw, after) := by
  obtain ⟨chunks, after, resolved, read⟩ := held
  have one : checkedMul (Hyperslab.elementCount ⟨[], []⟩) type.size = some (1 * type.size) :=
    if_pos (by
      change 1 * type.size < wordSize
      exact Nat.lt_trans (by omega) (show 2 ^ 32 < wordSize by decide))
  have small : 1 * type.size ≤ isizeMax := Nat.le_trans (show 1 * type.size ≤ 2 ^ 32 by omega) (by decide)
  exact ⟨_, after, (@readHyperslab_eq_ok (oneElement type data)
    ⟨[], []⟩ build ctx codecs caches rfl _ resolved _ _).mpr
    ⟨type.isDecodable_of_leaf numeric, _, data, one, small, read, rfl⟩⟩

/-- Whether every read of a dataset of a type, whatever its layout, its shape and the selection, returns
its leaves in native order. -/
def ReadsNative (type : Datatype) (order : ByteOrder) (width : Nat) : Prop :=
  ∀ (build : Build) (ctx : Ctx) (codecs : Codecs) (dataset : DatasetIndex) (slab : Hyperslab)
    (caches after : Caches)
    (raw : RawData), dataset.datatype = type → slab.validate dataset.shape = .ok () →
    readHyperslab build ctx codecs dataset slab caches = (.ok raw, after) →
    ∃ stored, Stored build ctx codecs dataset slab caches stored ∧
      NativeLeaves type order width slab.elementCount stored raw.bytes

variable {type : Datatype} {order : ByteOrder} {width : Nat}

theorem readHyperslab_native (numeric : type.leaf = some (order, width)) (typed : dataset.datatype = type)
    (valid : slab.validate dataset.shape = .ok ())
    (read : readHyperslab build ctx codecs dataset slab caches = (.ok raw, after)) :
    ∃ stored, Stored build ctx codecs dataset slab caches stored ∧
      stored.length = slab.elementCount * type.size ∧
      (NativeLeaves type order width slab.elementCount stored raw.bytes ↔
        type.byteOrder.isSome ∨ order = .little ∨
        NativeLeaves type .big width slab.elementCount stored stored) := by
  subst typed
  obtain ⟨stored, held, same⟩ := readHyperslab_stored valid read
  rw [same]
  exact ⟨stored, held, held.length, nativeLeaves_iff numeric held.length⟩

theorem readsNative_of_kept (numeric : type.leaf = some (order, width)) (kept : ¬ Skipped type order width) :
    ReadsNative type order width := by
  intro build ctx codecs dataset slab caches after raw typed valid read
  obtain ⟨stored, held, -, native⟩ := readHyperslab_native numeric typed valid read
  refine ⟨stored, held, native.mpr ?_⟩
  cases order with
  | little => exact .inr (.inl rfl)
  | big =>
    cases ordered : type.byteOrder with
    | some order => exact .inl rfl
    | none =>
      exact .inr (.inr (nativeLeaves_of_short stored fun short => kept ⟨ordered, rfl, short⟩))

/-- A marked leaf that is skipped is returned as it is stored. -/
theorem kept_of_readsNative (numeric : type.leaf = some (order, width)) (word : type.size < 2 ^ 32)
    (reads : ReadsNative type order width) : ¬ Skipped type order width := by
  rintro ⟨unordered, rfl, wide, o, member, fits⟩
  have held := @oneElement_stored .release fourBytes .refusing type (marked type.size o) (marked_length _ _)
    (Nat.lt_trans word (by decide)) ⟨none, none⟩
  obtain ⟨raw, after, read⟩ := oneElement_read numeric held word
  obtain ⟨stored, found, native⟩ := reads _ _ _ _ _ _ _ _ rfl rfl read
  obtain ⟨stored', found', -, same⟩ := readHyperslab_native numeric rfl rfl read
  cases held.unique found
  cases held.unique found'
  rcases same.mp native with ordered | little | swapped
  · simp [unordered] at ordered
  · cases little
  · exact marked_not_native wide member fits swapped

/-- A read returns its leaves in native order exactly when the type is one leaf, the leaves are
little-endian, or those selected read the same in both orders; and all reads of a type do unless a
big-endian leaf of two bytes or more lies below the class of the type. -/
theorem native_order_iff (numeric : type.leaf = some (order, width)) (word : type.size < 2 ^ 32) :
    (∀ (build : Build) (ctx : Ctx) (codecs : Codecs) (dataset : DatasetIndex) (slab : Hyperslab)
        (caches after : Caches) (raw : RawData), dataset.datatype = type →
        slab.validate dataset.shape = .ok () →
        readHyperslab build ctx codecs dataset slab caches = (.ok raw, after) →
        ∃ stored, Stored build ctx codecs dataset slab caches stored ∧
          stored.length = slab.elementCount * type.size ∧
          (NativeLeaves type order width slab.elementCount stored raw.bytes ↔
            type.byteOrder.isSome ∨ order = .little ∨
              NativeLeaves type .big width slab.elementCount stored stored)) ∧
      (ReadsNative type order width ↔ ¬ Skipped type order width) :=
  ⟨fun _ _ _ _ _ _ _ _ typed valid read => readHyperslab_native numeric typed valid read,
    kept_of_readsNative numeric word, readsNative_of_kept numeric⟩

/-- Two numbers of two bytes. -/
def pair (order : ByteOrder) : Datatype := ⟨3, 4, .array [2] ⟨1, 2, .fixedPoint order false 0 16⟩⟩

theorem native_order_littleEndian : ReadsNative (pair .little) .little 2 :=
  (@native_order_iff (pair .little) _ _ rfl (by decide)).2.mpr fun skipped => nomatch skipped.2.1

/-- The numbers 1 and 2 are returned as 256 and 512. -/
theorem native_order_bigEndian :
    ((pair .big).isDecodable = true ∧ (pair .big).leaf = some (.big, 2) ∧ (pair .big).leafOffsets = [0, 2]) ∧
      (readHyperslab .release fourBytes .refusing (oneElement (pair .big) [0, 1, 0, 2]) ⟨[], []⟩
      ⟨none, none⟩).1 =
        .ok ⟨[0, 1, 0, 2], 4, []⟩ ∧
      Stored .release fourBytes .refusing (oneElement (pair .big) [0, 1, 0, 2]) ⟨[], []⟩ ⟨none, none⟩
      [0, 1, 0, 2] ∧
      ¬ NativeLeaves (pair .big) .big 2 1 [0, 1, 0, 2] [0, 1, 0, 2] ∧ ¬ ReadsNative (pair .big) .big 2 := by
  refine ⟨⟨rfl, rfl, rfl⟩, by rfl, oneElement_stored rfl (by decide) _, fun native => ?_, fun reads => ?_⟩
  · have first := native 0 Nat.one_pos 0 (by decide) (by decide) 0 Nat.two_pos
    revert first
    decide
  · exact kept_of_readsNative rfl (by decide) reads ⟨rfl, rfl, Nat.one_lt_two, 0, by decide, by decide⟩

end Reads

end Oxcdf.Read
