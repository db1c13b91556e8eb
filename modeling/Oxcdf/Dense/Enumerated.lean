import Oxcdf.Btree2.Collected
import Oxcdf.Dense.Walked
import Oxcdf.FractalHeap.Complete

/-! When dense storage is enumerated right. The index names what is live; the walk of the heap
cannot tell a live record from the remains of a freed one. -/

set_option autoImplicit false

namespace Oxcdf.Dense

open Foundation Foundation.Buffer Foundation.Format Foundation.Extents FractalHeap

/-- A live object of a heap: where it is, the record it is, and the bytes of that record. -/
structure LiveRecord (α : Type) extends Record α where
  bytes : Bytes

/-- Two objects have no byte in common. -/
def LiveRecord.Apart {α : Type} (first second : LiveRecord α) : Prop :=
  first.place + first.bytes.length ≤ second.place ∨ second.place + second.bytes.length ≤ first.place

section Describing

variable {α : Type} (heap : StoredHeap) (tree : BtreeV2.StoredTree) (sizes : Sizes) (parse : Parse α)
  (skip : Nat) (live : List (LiveRecord α))

/-- An index record has the heap ID of an object behind so many bytes. -/
def Names (record : Bytes) (object : LiveRecord α) : Prop :=
  ∃ front rest, front.length = skip ∧
    record = front ++ (heap.heapId object.place object.bytes.length ++ rest)

/-- A heap and an index of it that agree on what is live: as many objects as the heap counts, each
one record, and each named once by the index. What else is in the heap does not matter. -/
structure Describes : Prop where
  counted : live.length = heap.managedObjectCount
  stored : ∀ object ∈ live, heap.Stores sizes object.place object.bytes
  short : ∀ object ∈ live, object.bytes.length < 256 ^ heap.lengthSize
  parsed : ∀ object ∈ live,
    parse (Cursor.start object.bytes) = (.ok object.value, Cursor.startAt object.bytes object.bytes.length)
  apart : live.Pairwise LiveRecord.Apart
  listed : List.Forall₂ (Names heap skip) tree.records live

/-- What is recorded where, of the live objects. -/
def records : List (Record α) := live.map LiveRecord.toRecord

variable (build : Build)

/-- When the walk and the index between them find what is live. The walk meets as many records as the
heap counts, and those it meets that are not live say what the live ones say that it does not
meet; or it meets fewer, and the index is read. -/
def Enumerates : Prop :=
  ∃ found, Met parse heap.managedObjectCount (heap.blocks sizes) found ∧
    (found.length = heap.managedObjectCount →
      (values (apartFrom (records live) found)).Perm (values (apartFrom found (records live)))) ∧
    (found.length < heap.managedObjectCount → tree.Readable build sizes)

/-- What the walk yields where it meets enough, and the index elsewhere. -/
def Yields (out : List α) : Prop :=
  ∃ found, Met parse heap.managedObjectCount (heap.blocks sizes) found ∧
    ((found.length = heap.managedObjectCount ∧ out = values found) ∨
      (found.length < heap.managedObjectCount ∧ tree.Readable build sizes ∧ out = values (records live)))

end Describing

section Places

variable {α : Type} {heap : StoredHeap} {tree : BtreeV2.StoredTree} {sizes : Sizes} {parse : Parse α}
  {skip : Nat} {live : List (LiveRecord α)} {found : List (Record α)} {build : Build}

theorem holds_of_stores {offset : Nat} {bytes : Bytes} (stores : heap.Stores sizes offset bytes) :
    Holds (heap.blocks sizes) offset bytes := by
  obtain ⟨block, member, skip, rfl, inside, same, -⟩ := stores
  refine ⟨block, member, block.2.take skip, block.2.drop (skip + bytes.length), ?_, ?_⟩
  · have middle : (block.2.drop skip).take bytes.length = bytes := same
    have whole : block.2 = block.2.take skip ++
        ((block.2.drop skip).take bytes.length ++ (block.2.drop skip).drop bytes.length) := by
      rw [List.take_append_drop, List.take_append_drop]
    rwa [middle, List.drop_drop, ← List.append_assoc] at whole
  · rw [List.length_take_of_le (by omega)]

theorem Describes.reads (describes : Describes heap tree sizes parse skip live)
    (delimits : SelfDelimiting parse) (object : LiveRecord α) (member : object ∈ live) :
    Reads parse object.bytes object.value :=
  delimits.isLocal.reads_whole (describes.parsed object member)

theorem Describes.places_nodup (describes : Describes heap tree sizes parse skip live) :
    (places (records live)).Nodup := by
  unfold places records List.Nodup
  rw [List.map_map, List.pairwise_map]
  refine describes.apart.imp_of_mem ?_
  intro first second here there apart same
  have positive : ∀ object ∈ live, 0 < object.bytes.length := fun object member => by
    obtain ⟨_, _, _, _, _, _, some_⟩ := describes.stored object member
    exact List.length_pos_iff.mpr some_
  have one := positive first here
  have two := positive second there
  change first.place = second.place at same
  unfold LiveRecord.Apart at apart
  omega

/-- What the walk meets at the place of a live object is that object. -/
theorem Describes.agree (describes : Describes heap tree sizes parse skip live) (fits : heap.Fits sizes)
    (delimits : SelfDelimiting parse) {wanted : Nat} (met : Met parse wanted (heap.blocks sizes) found) :
    ∀ a ∈ found, ∀ b ∈ records live, a.place = b.place → a = b := by
  intro a here b there same
  obtain ⟨object, member, rfl⟩ := List.mem_map.mp there
  obtain ⟨code, reads, holds⟩ := met.holds a here
  have also := describes.reads delimits object member
  have stands := holds_of_stores (describes.stored object member)
  rw [← same] at stands
  obtain ⟨rest, tail, shared⟩ := (StoredHeap.blocks_laid fits).extend (ne_nil_of_reads delimits _ _ reads)
    (ne_nil_of_reads delimits _ _ also) holds stands
  have value := (reads.unique also shared).2
  cases a
  cases object
  cases value
  cases same
  rfl

theorem met_places_nodup (fits : heap.Fits sizes) (delimits : SelfDelimiting parse) {wanted : Nat}
    (met : Met parse wanted (heap.blocks sizes) found) : (places found).Nodup := by
  have ascending := met.pairwise (ne_nil_of_reads delimits) (StoredHeap.blocks_laid fits)
  unfold places List.Nodup
  rw [List.pairwise_map]
  exact ascending.imp fun lt => Nat.ne_of_lt lt

/-- Somebody yields what is live exactly if the strays say what the missed say. -/
theorem yields_iff (describes : Describes heap tree sizes parse skip live) (fits : heap.Fits sizes)
    (delimits : SelfDelimiting parse) :
    (∃ out, Yields heap tree sizes parse live build out ∧ out.Perm (values (records live))) ↔
      Enumerates heap tree sizes parse live build := by
  have strays {found : List (Record α)} (met : Met parse heap.managedObjectCount (heap.blocks sizes) found) :=
    values_perm_iff (met_places_nodup fits delimits met) describes.places_nodup
      (describes.agree fits delimits met)
  constructor
  · rintro ⟨out, ⟨found, met, ⟨whole, rfl⟩ | ⟨short, readable, rfl⟩⟩, same⟩
    · exact ⟨found, met, fun _ => (strays met).mp same, fun short => absurd whole (Nat.ne_of_lt short)⟩
    · exact ⟨found, met, fun whole => absurd whole (Nat.ne_of_lt short), fun _ => readable⟩
  · rintro ⟨found, met, enough, fewer⟩
    rcases Nat.lt_or_eq_of_le met.length_le with short | whole
    · exact ⟨_, ⟨found, met, .inr ⟨short, fewer short, rfl⟩⟩, List.Perm.refl _⟩
    · exact ⟨_, ⟨found, met, .inl ⟨whole, rfl⟩⟩, (strays met).mpr (enough whole)⟩

/-- Where nothing but live objects is met, what is live is found. -/
theorem enumerates_of_live (describes : Describes heap tree sizes parse skip live) (fits : heap.Fits sizes)
    (delimits : SelfDelimiting parse) (met : Met parse heap.managedObjectCount (heap.blocks sizes) found)
    (clean : ∀ record ∈ found, record.place ∈ places (records live))
    (readable : found.length < heap.managedObjectCount → tree.Readable build sizes) :
    Enumerates heap tree sizes parse live build := by
  refine ⟨found, met, fun whole => ?_, readable⟩
  have strays : apartFrom (records live) found = [] :=
    List.filter_eq_nil_iff.mpr fun record member => by simpa using clean record member
  have as_many : found.length = (records live).length := by
    rw [whole, ← describes.counted, records, List.length_map]
  have missed := apartFrom_eq_nil (met_places_nodup fits delimits met) describes.places_nodup
    (describes.agree fits delimits met) as_many strays
  rw [strays, missed]

/-- Where the count is reached with a freed record that says what no live one says, a live one is lost. -/
theorem not_enumerates_of_freed (delimits : SelfDelimiting parse)
    (met : Met parse heap.managedObjectCount (heap.blocks sizes) found)
    (whole : found.length = heap.managedObjectCount) {record : Record α} (member : record ∈ found)
    (freed : record.place ∉ places (records live)) (other : record.value ∉ values (records live)) :
    ¬ Enumerates heap tree sizes parse live build := by
  rintro ⟨also, meets, enough, -⟩
  obtain rfl : found = also := met.unique
    (fun code value rest reads => not_unused_of_reads delimits reads rest)
    (fun reads second same => reads.unique second same) meets
  have stray : record ∈ apartFrom (records live) found :=
    List.mem_filter.mpr ⟨member, decide_eq_true freed⟩
  have said := (enough whole).mem_iff.mp (List.mem_map_of_mem stray)
  obtain ⟨missed, among, same⟩ := List.mem_map.mp said
  exact other (List.mem_map.mpr ⟨missed, (List.mem_filter.mp among).1, same⟩)

end Places

end Oxcdf.Dense
