import Oxcdf.Read.Runs

/-! The rows of a chunk copy, exactly.

The part of a chunk that lies in the selection is copied row by row. A row's place
in the output is exact, and its place in the chunk is its exact element index put
into one word.
-/

set_option autoImplicit false

namespace Oxcdf.Read

open Foundation Foundation.RowMajor Foundation.Buffer

variable (build : Build)

section Clip

/-- On each axis, a part is the overlap of a chunk with the selection, not empty. -/
inductive Clipped : List Nat → List Nat → List Nat → List Nat → List (Nat × Nat) → Prop where
  | nil : Clipped [] [] [] [] []
  | cons {offset width s c : Nat} {offsets widths start count : List Nat} {part : List (Nat × Nat)}
      (nonempty : max offset s < min (saturatingAdd offset width) (s + c))
      (rest : Clipped offsets widths start count part) :
      Clipped (offset :: offsets) (width :: widths) (s :: start) (c :: count)
        ((max offset s, min (saturatingAdd offset width) (s + c)) :: part)

theorem Clipped.lengths {offset widths start count : List Nat} {part : List (Nat × Nat)}
    (clipped : Clipped offset widths start count part) :
    offset.length = part.length ∧ widths.length = part.length ∧ start.length = part.length ∧
      count.length = part.length := by
  induction clipped with
  | nil => simp
  | cons nonempty rest ih => simpa using ih

theorem clip_eq_some : ∀ {count offset widths start : List Nat} {part : List (Nat × Nat)},
    offset.length = count.length → widths.length = count.length → start.length = count.length →
    clip offset widths start count = some part → Clipped offset widths start count part
  | [], [], [], [], part, _, _, _, found => by
    cases found
    exact .nil
  | c :: count, offset :: offsets, width :: widths, s :: start, part, sameOffset, sameWidth, sameStart,
      found => by
    simp only [clip] at found
    split at found
    · cases found
    · next nonempty =>
      obtain ⟨rest, later, rfl⟩ := Option.map_eq_some_iff.mp found
      exact .cons (Nat.lt_of_not_le nonempty) (clip_eq_some (Nat.succ.inj sameOffset)
        (Nat.succ.inj sameWidth) (Nat.succ.inj sameStart) later)

/-- A chunk that holds a selected coordinate has a part in the selection. -/
theorem clip_isSome {start : List Nat} : ∀ {count offset widths cell : List Nat},
    offset.length = count.length → widths.length = count.length → start.length = count.length →
    (∀ stop ∈ shift start count, stop < wordSize) → Inside count cell →
    InBox offset widths (shift start cell) → (clip offset widths start count).isSome := by
  induction start with
  | nil =>
    intro count offset widths cell sameOffset _ sameStart _ _ _
    have empty : offset = [] := List.eq_nil_of_length_eq_zero (sameOffset.trans sameStart.symm)
    rw [empty]
    rfl
  | cons s start ih =>
    intro count offset widths cell sameOffset sameWidth sameStart stops inside inBox
    match count, offset, widths, cell with
    | c :: count, offset :: offsets, width :: widths, i :: cell =>
      obtain ⟨⟨lower, upper⟩, box⟩ := inBox
      change offset ≤ s + i at lower
      change s + i < offset + width at upper
      obtain ⟨bound, within⟩ := inside
      have stop : s + c < wordSize := stops (s + c) (by simp)
      have far : s + i < saturatingAdd offset width := lt_min upper (by omega)
      rw [clip, if_neg (by omega), Option.isSome_map]
      exact ih (Nat.succ.inj sameOffset) (Nat.succ.inj sameWidth) (Nat.succ.inj sameStart)
        (fun stop later => stops stop (by simp [later])) within box

/-- A chunk is needed exactly when some part of it lies in the selection. -/
theorem intersects_eq : ∀ {offset widths start count : List Nat},
    intersects offset widths start count = (clip offset widths start count).isSome
  | [], _, _, _ => by simp [intersects, clip]
  | _ :: _, [], _, _ => by simp [intersects, clip]
  | _ :: _, _ :: _, [], _ => by simp [intersects, clip]
  | _ :: _, _ :: _, _ :: _, [] => by simp [intersects, clip]
  | offset :: offsets, width :: widths, s :: start, c :: count => by
    unfold intersects clip
    by_cases empty : max offset s ≥ min (saturatingAdd offset width) (s + c)
    · rw [if_pos empty]
      simp [Nat.not_lt.mpr empty]
    · rw [if_neg empty, intersects_eq]
      simp [Nat.lt_of_not_le empty]

end Clip

section Rows

def lows (part : List (Nat × Nat)) : List Nat := part.map Prod.fst

def spans (part : List (Nat × Nat)) : List Nat := part.map fun axis => axis.2 - axis.1

/-- The axes that the odometer of a chunk copy runs over. -/
def rowBox (part : List (Nat × Nat)) : List Nat := (spans part).take (part.length - 1)

/-- The exact element of the chunk that a row starts at. -/
def rowSource (offset chunkShape : List Nat) (part : List (Nat × Nat)) (index : List Nat) : Nat :=
  linear chunkShape (back offset (lows part)) + dot index (RowMajor.strides chunkShape)

/-- The exact element of the output that a row starts at. -/
def rowPlace (slab : Hyperslab) (part : List (Nat × Nat)) (index : List Nat) : Nat :=
  linear slab.count (back slab.start (lows part)) + dot index (RowMajor.strides slab.count)

theorem rowPosition_eq {offset widths start count : List Nat} {part : List (Nat × Nat)}
    (clipped : Clipped offset widths start count part) :
    ∀ (lead : Nat) {index chunkStrides dstStrides : List Nat} {src dst : Nat},
    (∀ stop ∈ shift start count, stop < wordSize) → Inside ((spans part).take lead) index →
    part.length ≤ chunkStrides.length → part.length ≤ dstStrides.length →
    src < wordSize → dst < wordSize →
    rowPosition build part index offset start chunkStrides dstStrides (src, dst) =
      build.word (src + dot (shift (back offset (lows part)) index) chunkStrides) >>= fun src =>
        build.word (dst + dot (shift (back start (lows part)) index) dstStrides) >>= fun dst =>
          .ok (src, dst) := by
  -- Behind the index no axis moves either position.
  have still : ∀ {part offset start chunkStrides dstStrides} {src dst : Nat}, src < wordSize →
      dst < wordSize → rowPosition build part [] offset start chunkStrides dstStrides (src, dst) =
        build.word (src + dot (shift (back offset (lows part)) []) chunkStrides) >>= fun src =>
          build.word (dst + dot (shift (back start (lows part)) []) dstStrides) >>= fun dst =>
            .ok (src, dst) := by
    intro part offset start chunkStrides dstStrides src dst srcWord dstWord
    have none : ∀ base, shift base [] = [] := by
      intro base
      cases base <;> rfl
    rw [none, none, dot_nil_left, dot_nil_left, Nat.add_zero, Nat.add_zero, Build.word_of_lt _ srcWord,
      Outcome.ok_bind, Build.word_of_lt _ dstWord, Outcome.ok_bind]
    cases part <;> rfl
  induction clipped with
  | nil =>
    intro lead index chunkStrides dstStrides src dst _ inside _ _ srcWord dstWord
    have empty : index = [] := List.eq_nil_of_length_eq_zero (by simpa [spans] using inside.length_eq)
    rw [empty]
    exact still srcWord dstWord
  | @cons offset width s c offsets widths start count part nonempty rest ih =>
    intro lead index chunkStrides dstStrides src dst stops inside weights dstWeights srcWord dstWord
    match lead, index, chunkStrides, dstStrides, inside, weights, dstWeights with
    | 0, [], _, _, _, _, _ => exact still srcWord dstWord
    | lead + 1, i :: index, chunkStride :: chunkStrides, dstStride :: dstStrides, inside, weights,
        dstWeights =>
      obtain ⟨bound, within⟩ := inside
      have stop : s + c < wordSize := stops (s + c) (by simp)
      have coord : max offset s + i < wordSize := by
        have bound : i < min (saturatingAdd offset width) (s + c) - max offset s := bound
        omega
      have chunkIndex : max offset s + i - offset = max offset s - offset + i := by omega
      have dstIndex : max offset s + i - s = max offset s - s + i := by omega
      simp only [rowPosition, Build.add, Build.word_of_lt _ coord, Outcome.ok_bind, chunkIndex, dstIndex]
      exact Build.addAxis_eq build (fun src dst srcWord dstWord =>
        ih lead (fun stop later => stops stop (by simp [later])) within
          (Nat.le_of_succ_le_succ weights) (Nat.le_of_succ_le_succ dstWeights) srcWord dstWord)
        srcWord dstWord _ _ _ _

theorem lows_length (part : List (Nat × Nat)) : (lows part).length = part.length := List.length_map _

theorem spans_length (part : List (Nat × Nat)) : (spans part).length = part.length := List.length_map _

/-- How many elements a row has. -/
def rowLength (part : List (Nat × Nat)) : Nat := (spans part).getLastD 0

theorem Clipped.spans_pos {offset widths start count : List Nat} {part : List (Nat × Nat)}
    (clipped : Clipped offset widths start count part) : 0 < (spans part).prod := by
  induction clipped with
  | nil => simp [spans]
  | cons nonempty rest ih =>
    rw [spans, List.map_cons, List.prod_cons]
    exact Nat.mul_pos (Nat.sub_pos_of_lt nonempty) ih

theorem Clipped.spans_le {offset widths start count : List Nat} {part : List (Nat × Nat)}
    (clipped : Clipped offset widths start count part) : (spans part).prod ≤ count.prod := by
  induction clipped with
  | nil => simp [spans]
  | @cons offset width s c offsets widths start count part nonempty rest ih =>
    rw [spans, List.map_cons, List.prod_cons, List.prod_cons]
    exact Nat.mul_le_mul (show min (saturatingAdd offset width) (s + c) - max offset s ≤ c by omega) ih

/-- Every cell of a part is a cell of the selection. -/
theorem Clipped.inside_count {offset widths start count : List Nat} {part : List (Nat × Nat)}
    (clipped : Clipped offset widths start count part) : ∀ {cell : List Nat}, Inside (spans part) cell →
    Inside count (shift (back start (lows part)) cell) := by
  induction clipped with
  | nil =>
    intro cell inside
    cases cell with
    | nil => trivial
    | cons i cell => exact inside.elim
  | @cons offset width s c offsets widths start count part nonempty rest ih =>
    intro cell inside
    cases cell with
    | nil => exact inside.elim
    | cons i cell =>
      obtain ⟨bound, within⟩ := inside
      have bound : i < min (saturatingAdd offset width) (s + c) - max offset s := bound
      exact ⟨(by omega : max offset s - s + i < c), ih within⟩

/-- Every cell of a part is a cell of the chunk. -/
theorem Clipped.inBox {offset widths start count : List Nat} {part : List (Nat × Nat)}
    (clipped : Clipped offset widths start count part) : ∀ {cell : List Nat}, Inside (spans part) cell →
    InBox offset widths (shift (lows part) cell) := by
  induction clipped with
  | nil =>
    intro cell inside
    cases cell with
    | nil => trivial
    | cons i cell => exact inside.elim
  | @cons offset width s c offsets widths start count part nonempty rest ih =>
    intro cell inside
    cases cell with
    | nil => exact inside.elim
    | cons i cell =>
      obtain ⟨bound, within⟩ := inside
      have bound : i < min (saturatingAdd offset width) (s + c) - max offset s := bound
      have saturated : saturatingAdd offset width ≤ offset + width := Nat.min_le_left _ _
      exact ⟨(by omega : offset ≤ max offset s + i ∧ max offset s + i < offset + width), ih within⟩

/-- A selected coordinate of a chunk lies in the part of the chunk that is copied. -/
theorem Clipped.covers {offset widths start count : List Nat} {part : List (Nat × Nat)}
    (clipped : Clipped offset widths start count part) : ∀ {cell : List Nat},
    (∀ stop ∈ shift start count, stop < wordSize) → Inside count cell →
    InBox offset widths (shift start cell) →
    Inside (spans part) (back (lows part) (shift start cell)) ∧
      shift (back start (lows part)) (back (lows part) (shift start cell)) = cell := by
  induction clipped with
  | nil =>
    intro cell _ inside _
    cases cell with
    | nil => exact ⟨trivial, rfl⟩
    | cons i cell => exact inside.elim
  | @cons offset width s c offsets widths start count part nonempty rest ih =>
    intro cell stops inside inBox
    cases cell with
    | nil => exact inside.elim
    | cons i cell =>
      obtain ⟨⟨lower, upper⟩, box⟩ := inBox
      change offset ≤ s + i at lower
      change s + i < offset + width at upper
      obtain ⟨bound, within⟩ := inside
      obtain ⟨found, same⟩ := ih (fun stop later => stops stop (by simp [later])) within box
      have stop : s + c < wordSize := stops (s + c) (by simp)
      have far : s + i < saturatingAdd offset width := lt_min upper (by omega)
      refine ⟨⟨(by omega : s + i - max offset s < min (saturatingAdd offset width) (s + c) - max offset s),
        found⟩, ?_⟩
      have head : max offset s - s + (s + i - max offset s) = i := by omega
      change (max offset s - s + (s + i - max offset s)) ::
        shift (back start (lows part)) (back (lows part) (shift start cell)) = _
      rw [head, same]

section Copies

variable {slab : Hyperslab} {offset chunkShape : List Nat} {part : List (Nat × Nat)}

theorem rowBox_eq (part : List (Nat × Nat)) :
    (part.dropLast.map fun axis => axis.2 - axis.1) = rowBox part := by
  rw [List.dropLast_eq_take, List.map_take]
  rfl

/-- A part consists of its rows. -/
theorem spans_eq (ranked : part ≠ []) : spans part = rowBox part ++ [rowLength part] := by
  have nonempty : spans part ≠ [] := by simpa [spans] using ranked
  have last : (spans part).getLast nonempty = rowLength part := by
    rw [rowLength, List.getLastD_eq_getLast?, List.getLast?_eq_some_getLast nonempty]
    rfl
  rw [← last, ← rowBox_eq, List.map_dropLast]
  exact (List.dropLast_append_getLast nonempty).symm

theorem rowBox_length {index : List Nat} (inside : Inside (rowBox part) index) :
    index.length = part.length - 1 := by
  rw [inside.length_eq, rowBox, List.length_take, spans_length]
  omega

/-- Entry `t` of a row is a cell of the part. -/
theorem row_inside (ranked : part ≠ []) {index : List Nat} {t : Nat} (inside : Inside (rowBox part) index)
    (within : t < rowLength part) : Inside (spans part) (index ++ [t]) := by
  rw [spans_eq ranked]
  exact inside.append ⟨within, trivial⟩

theorem exists_row (ranked : part ≠ []) {cell : List Nat} (inside : Inside (spans part) cell) :
    ∃ index t, cell = index ++ [t] ∧ Inside (rowBox part) index ∧ t < rowLength part := by
  have split := inside.split (rowBox part).length
  rw [spans_eq ranked, List.take_left, List.drop_left] at split
  obtain ⟨outer, inner⟩ := split
  have one := inner.length_eq
  obtain ⟨t, single⟩ := List.length_eq_one_iff.mp one
  refine ⟨cell.take (rowBox part).length, t, ?_, outer, ?_⟩
  · rw [← single, List.take_append_drop]
  · rw [single] at inner
    exact inner.1

/-- The last axis of a coordinate counts single elements. -/
theorem linear_base_row {box base index : List Nat} {t : Nat} (same : base.length = box.length)
    (long : index.length + 1 = box.length) :
    linear box (shift base (index ++ [t])) =
      linear box base + dot index (RowMajor.strides box) + t := by
  rw [linear_shift box (by simp [same, long]), linear_append_dot [t] (by omega), Nat.add_assoc]
  congr 2
  have one : (box.drop index.length).length = 1 := by simp; omega
  obtain ⟨n, single⟩ := List.length_eq_one_iff.mp one
  simp [single, linear]

theorem rowPlace_eq (clipped : Clipped offset chunkShape slab.start slab.count part) (ranked : part ≠ [])
    {index : List Nat} (inside : Inside (rowBox part) index) (t : Nat) :
    linear slab.count (shift (back slab.start (lows part)) (index ++ [t])) =
      rowPlace slab part index + t := by
  obtain ⟨_, _, starts, counts⟩ := clipped.lengths
  have positive := List.length_pos_of_ne_nil ranked
  apply linear_base_row
  · simp [back, lows_length, starts, counts]
  · rw [rowBox_length inside]
    omega

theorem rowSource_eq (clipped : Clipped offset chunkShape slab.start slab.count part) (ranked : part ≠ [])
    {index : List Nat} (inside : Inside (rowBox part) index) (t : Nat) :
    linear chunkShape (shift (back offset (lows part)) (index ++ [t])) =
      rowSource offset chunkShape part index + t := by
  obtain ⟨offsets, widths, _, _⟩ := clipped.lengths
  have positive := List.length_pos_of_ne_nil ranked
  apply linear_base_row
  · simp [back, lows_length, offsets, widths]
  · rw [rowBox_length inside]
    omega

/-- A row of the output ends inside the output. -/
theorem rowPlace_lt (clipped : Clipped offset chunkShape slab.start slab.count part) (ranked : part ≠ [])
    {index : List Nat} (inside : Inside (rowBox part) index) {t : Nat} (within : t < rowLength part) :
    rowPlace slab part index + t < slab.count.prod := by
  rw [← rowPlace_eq clipped ranked inside]
  exact linear_lt (clipped.inside_count (row_inside ranked inside within))

theorem rowLength_pos (clipped : Clipped offset chunkShape slab.start slab.count part)
    (ranked : part ≠ []) : 0 < rowLength part ∧ 0 < (rowBox part).prod := by
  have positive := clipped.spans_pos
  rw [spans_eq ranked, List.prod_append] at positive
  exact ⟨by simpa using Nat.pos_of_mul_pos_left positive, Nat.pos_of_mul_pos_right positive⟩

/-- The rows of a chunk copy: each source is an exact element index put into one
word, and each place in the output is exact. -/
theorem chunkWrites_eq (clipped : Clipped offset chunkShape slab.start slab.count part)
    (ranked : part ≠ []) (stops : ∀ stop ∈ shift slab.start slab.count, stop < wordSize)
    (small : slab.count.prod < wordSize) {chunkStrides : List Nat}
    (found : (build.words (RowMajor.strides chunkShape) : Code (List Nat)) = .ok chunkStrides)
    (decoded : Bytes) (elementSize : Nat) :
    chunkWrites build decoded offset part chunkStrides (RowMajor.strides slab.count) slab elementSize =
      .ok ((cells (rowBox part)).map fun index =>
        build.word (rowSource offset chunkShape part index) >>= fun src =>
          rowWrite build decoded elementSize src (rowPlace slab part index) (rowLength part)) := by
  obtain ⟨offsets, widths, starts, counts⟩ := clipped.lengths
  have weights := Build.words_length found
  have boxPos := (rowLength_pos clipped ranked).2
  have boxSmall : (rowBox part).prod < wordSize := by
    have whole := clipped.spans_le
    rw [spans_eq ranked, List.prod_append] at whole
    have part_ : (rowBox part).prod ≤ (rowBox part).prod * [rowLength part].prod :=
      Nat.le_mul_of_pos_right _ (by simpa using (rowLength_pos clipped ranked).1)
    omega
  obtain ⟨⟨lo, hi⟩, last⟩ : ∃ axis, part.getLast? = some axis :=
    ⟨_, List.getLast?_eq_some_getLast ranked⟩
  have lastLow : (lows part).getLastD 0 = lo := by simp [lows, List.getLastD_eq_getLast?, last]
  have lastSpan : rowLength part = hi - lo := by
    simp [rowLength, spans, List.getLastD_eq_getLast?, last]
  have passes : max (elementCount (rowBox part)) (if part.length = 1 then 1 else 0) = (rowBox part).prod := by
    rw [elementCount_of_lt boxSmall]
    split <;> omega
  unfold chunkWrites
  rw [last]
  simp only [rowBox_eq, passes, orbit_origin, ← lastSpan]
  congr 1
  apply List.map_congr_left
  intro index member
  have inside := mem_cells.mp member
  have long := rowBox_length inside
  have positive := List.length_pos_of_ne_nil ranked
  -- The last axis is added after the odometer's axes; together they weigh the whole coordinate.
  have lead : ∀ (base weights : List Nat), base.length = part.length → weights.length = part.length →
      dot (shift (back base (lows part)) index) weights +
          (lo - base.getLastD 0) * weights.getLastD 0 =
        dot (back base (lows part)) weights + dot index weights := by
    intro base weights sameBase sameWeights
    have backLength : (back base (lows part)).length = part.length := by
      simp [back, lows_length, sameBase]
    have weight : weights.getLastD 0 = weights.getD index.length 0 := by
      rw [List.getLastD_eq_getLast?, List.getLast?_eq_getElem?, List.getD_eq_getElem?_getD, sameWeights,
        long]
    have low : lo - base.getLastD 0 = (back base (lows part)).getD index.length 0 := by
      rw [← lastLow, ← back_getD_last (by rw [sameBase, lows_length]), lows_length, long]
    rw [weight, low]
    apply dot_shift_lead (by omega) (by rw [backLength, sameWeights])
    intro k beyond
    simp [List.getD_eq_getElem?_getD, List.getElem?_eq_none (show (back base (lows part)).length ≤ k by omega)]
  have place : dot (back slab.start (lows part)) (RowMajor.strides slab.count) +
      dot index (RowMajor.strides slab.count) = rowPlace slab part index := by
    rw [rowPlace, linear_eq_dot]
  have placeSmall : rowPlace slab part index < wordSize :=
    lt_trans (rowPlace_lt (t := 0) clipped ranked inside (rowLength_pos clipped ranked).1) small
  have source : (build.word (dot (back offset (lows part)) chunkStrides + dot index chunkStrides) :
      Code Nat) = build.word (rowSource offset chunkShape part index) := by
    rw [Build.word_dot_words found, Nat.add_comm, Build.word_dot_words found, Nat.add_comm, rowSource,
      linear_eq_dot]
  have dstLead := lead slab.start (RowMajor.strides slab.count) starts (by rw [strides_length, counts])
  have srcLead := lead offset chunkStrides offsets (by rw [weights, strides_length, widths])
  rw [rowPosition_eq build clipped (part.length - 1) stops inside
    (by rw [weights, strides_length, widths]) (by rw [strides_length, counts]) wordSize_pos wordSize_pos,
    Nat.zero_add, Nat.zero_add]
  rw [place] at dstLead
  simp only [bind_assoc, Outcome.ok_bind, Build.mul, Build.add]
  rw [Build.word_of_lt _ (show dot (shift (back slab.start (lows part)) index)
      (RowMajor.strides slab.count) < wordSize by omega),
    Build.word_of_lt _ (show (lo - slab.start.getLastD 0) * (RowMajor.strides slab.count).getLastD 0 <
      wordSize by omega)]
  simp only [Outcome.ok_bind, dstLead]
  rw [Build.word_of_lt _ placeSmall]
  simp only [Outcome.ok_bind]
  rw [← source, ← srcLead, ← Build.word_bind_word_add]
  simp only [bind_assoc]

theorem rowWrite_eq_ok {decoded : Bytes} {elementSize src dst run : Nat} {write : Write UInt8}
    (done : rowWrite build decoded elementSize src dst run = .ok write) :
    write.start = dst * elementSize % wordSize ∧ write.entries.length = run * elementSize % wordSize := by
  unfold rowWrite at done
  obtain ⟨sb, srcFits, done⟩ := Outcome.bind_eq_ok.mp done
  obtain ⟨db, dstFits, done⟩ := Outcome.bind_eq_ok.mp done
  obtain ⟨len, lenFits, done⟩ := Outcome.bind_eq_ok.mp done
  obtain ⟨_, _, done⟩ := Outcome.bind_eq_ok.mp done
  obtain ⟨stop, stopFits, done⟩ := Outcome.bind_eq_ok.mp done
  obtain ⟨bytes, sliced, done⟩ := Outcome.bind_eq_ok.mp done
  cases done
  obtain ⟨inside, rfl⟩ := cut_eq build stopFits (Build.lt_of_word_eq_ok srcFits) (Build.lt_of_word_eq_ok lenFits) sliced
  refine ⟨Build.word_eq_ok dstFits, ?_⟩
  rw [← Build.word_eq_ok lenFits]
  exact slice_length decoded inside

end Copies

end Rows

section Needed

section Copy

variable {ctx : Ctx} {codecs : Codecs} {dataset : DatasetIndex} {decodedLen elementSize : Nat}
  {chunkShape chunkStrides dstStrides : List Nat} {slab : Hyperslab} {record : ChunkRecord}
  {records : List ChunkRecord}

theorem copyChunks_none (apart : clip record.offset chunkShape slab.start slab.count = none) :
    copyChunks build ctx codecs dataset decodedLen chunkShape chunkStrides dstStrides slab elementSize
        (record :: records) =
      copyChunks build ctx codecs dataset decodedLen chunkShape chunkStrides dstStrides slab elementSize
        records := by
  funext out
  rw [copyChunks, apart]

theorem copyChunks_some {part : List (Nat × Nat)}
    (overlap : clip record.offset chunkShape slab.start slab.count = some part) :
    copyChunks build ctx codecs dataset decodedLen chunkShape chunkStrides dstStrides slab elementSize
        (record :: records) = fun out => (do
      let decoded ← fetchDecoded build ctx codecs dataset decodedLen record
      if decoded.length < decodedLen then
        Session.throw (shortChunk dataset record decoded.length decodedLen)
      else
        let writes ← Session.lift
          (chunkWrites build decoded record.offset part chunkStrides dstStrides slab elementSize)
        let out ← Session.lift (storeEach writes out)
        copyChunks build ctx codecs dataset decodedLen chunkShape chunkStrides dstStrides slab elementSize
          records out) := by
  funext out
  rw [copyChunks, overlap]

end Copy

theorem filterMap_zipIdx {α : Type} (keep : α → Bool) (items : List α) :
    ((items.zipIdx.filter fun indexed => keep indexed.1).map Prod.snd).filterMap (fun i => items[i]?) =
      items.filter keep := by
  have shifted : ∀ (all tail : List α) (first : Nat), all.drop first = tail →
      (((tail.zipIdx first).filter fun indexed => keep indexed.1).map Prod.snd).filterMap
        (fun i => all[i]?) = tail.filter keep := by
    intro all tail
    induction tail with
    | nil => intros; rfl
    | cons item tail ih =>
      intro first rest
      have here : all[first]? = some item := by
        rw [← List.head?_drop, rest]
        rfl
      have later : all.drop (first + 1) = tail := by
        rw [← List.drop_drop, rest]
        rfl
      rw [List.zipIdx_cons, List.filter_cons, List.filter_cons]
      cases keep item with
      | false => exact ih (first + 1) later
      | true => simp [here, ih (first + 1) later]
  exact shifted items items 0 rfl

/-- The needed chunks are the chunks with a part in the selection, in the order of the index. -/
theorem neededChunks_spec {chunks : List ChunkRecord} {chunkShape : List Nat} {slab : Hyperslab}
    {rank : Nat} {needed : List Nat} (found : neededChunks chunks chunkShape slab rank = .ok needed) :
    (∀ record ∈ chunks, record.offset.length = rank) ∧
      (needed.filterMap fun i => chunks[i]?) =
        chunks.filter fun record => intersects record.offset chunkShape slab.start slab.count := by
  unfold neededChunks at found
  split at found
  · cases found
  · next ranks =>
    cases found
    refine ⟨by simpa using ranks, ?_⟩
    exact filterMap_zipIdx (fun record => intersects record.offset chunkShape slab.start slab.count) chunks

end Needed

end Oxcdf.Read
