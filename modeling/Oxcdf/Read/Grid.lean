import Oxcdf.Read.Rows

/-! The marker of covered grid cells, and what it proves when it answers yes:
every selected coordinate lies in a stored chunk. -/

set_option autoImplicit false

namespace Oxcdf.Read

open Foundation Foundation.RowMajor

/-- The cell of the chunk grid that holds a coordinate lies in a block of cells. -/
inductive InBlock : List Nat → List (Nat × Nat) → List Nat → Prop where
  | nil : InBlock [] [] []
  | cons {width first span x : Nat} {widths : List Nat} {block : List (Nat × Nat)} {coord : List Nat}
      (positive : 0 < width) (lower : first ≤ x / width) (upper : x / width < first + span)
      (rest : InBlock widths block coord) :
      InBlock (width :: widths) ((first, span) :: block) (x :: coord)

/-- The grid cell of a coordinate, counted from the first cell of a block. -/
def gridCell : List Nat → List (Nat × Nat) → List Nat → List Nat
  | width :: widths, (first, _) :: block, x :: coord => (x / width - first) :: gridCell widths block coord
  | _, _, _ => []

def blockSpans (block : List (Nat × Nat)) : List Nat := block.map Prod.snd

theorem InBlock.inside {widths : List Nat} {block : List (Nat × Nat)} {coord : List Nat}
    (located : InBlock widths block coord) : Inside (blockSpans block) (gridCell widths block coord) := by
  induction located with
  | nil => trivial
  | @cons width first span x widths block coord positive lower upper rest ih =>
    exact ⟨(by omega : x / width - first < span), ih⟩

/-- A coordinate whose grid cell is that of a chunk on the grid lies in the chunk. -/
theorem InBlock.inBox {widths : List Nat} {block : List (Nat × Nat)} {offset : List Nat}
    (chunk : InBlock widths block offset) : ∀ {coord : List Nat}, InBlock widths block coord →
    List.Forall₂ (· ∣ ·) widths offset →
    gridCell widths block offset = gridCell widths block coord → InBox offset widths coord := by
  induction chunk with
  | nil =>
    intro coord located _ _
    cases located
    trivial
  | @cons width first span o widths block offset positive lower upper rest ih =>
    intro coord located aligned same
    cases located with
    | @cons _ _ _ x _ _ coord _ lower' upper' rest' =>
      cases aligned with
      | cons divides aligned =>
        obtain ⟨head, tail⟩ := List.cons.inj same
        have quotient : x / width = o / width := by omega
        have start : o = o / width * width := (Nat.div_mul_cancel divides).symm
        have below := Nat.div_mul_le_self x width
        have above := Nat.lt_div_mul_add positive (a := x)
        rw [quotient, ← start] at below above
        exact ⟨⟨below, above⟩, ih rest' aligned tail⟩

theorem blockCell_spec : ∀ {offset widths : List Nat} {block : List (Nat × Nat)} {cell found : Nat},
    offset.length = widths.length → block.length = widths.length → (∀ width ∈ widths, 0 < width) →
    blockCell offset widths block cell = some found →
    InBlock widths block offset ∧ List.Forall₂ (· ∣ ·) widths offset ∧
      found = cell * (blockSpans block).prod + linear (blockSpans block) (gridCell widths block offset)
  | [], [], [], cell, found, _, _, _, done => by
    cases done
    exact ⟨.nil, .nil, by simp [blockSpans, linear]⟩
  | o :: offset, width :: widths, (first, span) :: block, cell, found, sameOffset, sameBlock, positive,
      done => by
    simp only [blockCell] at done
    split at done
    · cases done
    · next divides =>
      split at done
      · cases done
      · next inside =>
        obtain ⟨located, aligned, total⟩ := blockCell_spec (Nat.succ.inj sameOffset)
          (Nat.succ.inj sameBlock) (fun w member => positive w (by simp [member])) done
        refine ⟨.cons (positive width (by simp)) (by omega) (by omega) located,
          .cons (Nat.dvd_of_mod_eq_zero (not_not.mp divides)) aligned, ?_⟩
        rw [total]
        simp only [blockSpans, List.map_cons, List.prod_cons, gridCell, linear]
        ring

/-- The block of cells that a selection touches holds the cell of every selected
coordinate. -/
theorem gridBlock_spec {chunks : Nat} : ∀ {count widths start : List Nat} {cells : Nat}
    {block : List (Nat × Nat)} {total : Nat}, widths.length = count.length → start.length = count.length →
    gridBlock chunks widths start count cells = some (block, total) →
    block.length = widths.length ∧ (∀ width ∈ widths, 0 < width) ∧
      total = cells * (blockSpans block).prod ∧
      ∀ cell, Inside count cell → InBlock widths block (shift start cell)
  | [], [], [], cells, block, total, _, _, done => by
    cases done
    refine ⟨rfl, by simp, by simp [blockSpans], fun cell inside => ?_⟩
    cases cell with
    | nil => exact .nil
    | cons i cell => exact inside.elim
  | c :: count, width :: widths, s :: start, cells, block, total, sameWidth, sameStart, done => by
    simp only [gridBlock] at done
    split at done
    · cases done
    · next nonzero =>
      split at done
      · next n fits =>
        split at done
        · obtain ⟨⟨inner, sum⟩, found, same⟩ := Option.map_eq_some_iff.mp done
          cases same
          obtain ⟨long, positive, product, located⟩ := gridBlock_spec (Nat.succ.inj sameWidth)
            (Nat.succ.inj sameStart) found
          have widthPos : 0 < width := Nat.pos_of_ne_zero nonzero
          refine ⟨congrArg (· + 1) long, ?_, ?_, ?_⟩
          · intro w member
            rcases List.mem_cons.mp member with rfl | member
            · exact widthPos
            · exact positive w member
          · rw [product, (checkedMul_eq_some fits).1]
            simp only [blockSpans, List.map_cons, List.prod_cons]
            ring
          · intro cell inside
            cases cell with
            | nil => exact inside.elim
            | cons i cell =>
              obtain ⟨bound, within⟩ := inside
              -- Division is monotone, so the coordinate falls between the first cell and the last.
              have lower := Nat.div_le_div_right (c := width) (Nat.le_add_right s i)
              have upper := Nat.div_le_div_right (c := width) (show s + i ≤ s + c - 1 by omega)
              have reach : (s + i) / width < s / width + ((s + c - 1) / width - s / width + 1) := by omega
              exact .cons widthPos lower reach (located cell within)
        · cases done
      · cases done

/-- Where the marker stops with nothing missing, every cell was seen before or is
the cell of a stored chunk. -/
theorem markCells_spec {widths : List Nat} {block : List (Nat × Nat)} {rank : Nat} :
    ∀ {chunks : List ChunkRecord} {seen : List Bool} {missing : Nat}, missing = seen.count false →
    markCells widths block rank chunks seen missing = true → ∀ cell < seen.length,
    seen[cell]? = some true ∨ ∃ record ∈ chunks, record.size ≠ 0 ∧ record.offset.length = rank ∧
      blockCell record.offset widths block 0 = some cell := by
  intro chunks
  induction chunks with
  | nil =>
    intro seen missing _ done
    cases done
  | cons record chunks ih =>
    intro seen missing counted done cell inside
    have later : markCells widths block rank chunks seen missing = true →
        seen[cell]? = some true ∨ ∃ found ∈ record :: chunks, found.size ≠ 0 ∧
          found.offset.length = rank ∧ blockCell found.offset widths block 0 = some cell := by
      intro rest
      rcases ih counted rest cell inside with before | ⟨found, member, stored⟩
      · exact .inl before
      · exact .inr ⟨found, List.mem_cons_of_mem _ member, stored⟩
    unfold markCells at done
    split at done
    · exact later done
    · next written =>
      split at done
      · exact later done
      · next here located =>
        split at done
        · exact later done
        · next fresh =>
          have unseen : seen[here]? = some false := by
            rw [List.getD_eq_getElem?_getD] at fresh
            cases found : seen[here]? with
            | none => simp [found] at fresh
            | some mark => simpa [found] using fresh
          obtain ⟨bound, valued⟩ := List.getElem?_eq_some_iff.mp unseen
          have marked : (seen.set here true).count false = seen.count false - 1 := by
            rw [List.count_set bound, valued]
            simp
          by_cases same : cell = here
          · right
            refine ⟨record, by simp, ?_, ?_, same ▸ located⟩ <;> tauto
          · have kept : (seen.set here true)[cell]? = seen[cell]? :=
              List.getElem?_set_ne (Ne.symm same)
            split at done
            · next complete =>
              -- The last missing cell is the one just marked.
              left
              have none : (seen.set here true).count false = 0 := by rw [marked, ← counted, complete]
              have absent : false ∉ seen.set here true := List.count_eq_zero.mp none
              rw [← kept]
              have bound : cell < (seen.set here true).length := by simpa using inside
              rw [List.getElem?_eq_getElem bound]
              cases mark : (seen.set here true)[cell] with
              | true => rfl
              | false => exact absurd (mark ▸ List.getElem_mem bound) absent
            · rcases ih (by rw [marked, counted]) done cell (by simpa using inside) with
                before | ⟨found, member, stored⟩
              · exact .inl (kept ▸ before)
              · exact .inr ⟨found, List.mem_cons_of_mem _ member, stored⟩

/-- Where the stored chunks cover a selection, each of its coordinates lies in one
of them. -/
theorem chunksCover_spec {chunks : List ChunkRecord} {widths : List Nat} {slab : Hyperslab} {rank : Nat}
    (ranked : widths.length = rank) (starts : slab.start.length = rank) (counts : slab.count.length = rank)
    (nonempty : slab.elementCount ≠ 0) (covered : chunksCover chunks widths slab rank = true)
    {cell : List Nat} (inside : Inside slab.count cell) :
    ∃ record ∈ chunks, record.size ≠ 0 ∧ record.offset.length = rank ∧
      InBox record.offset widths (shift slab.start cell) := by
  unfold chunksCover at covered
  rw [if_neg nonempty] at covered
  split at covered
  · cases covered
  · next block total found =>
    obtain ⟨long, positive, product, located⟩ := gridBlock_spec (by omega) (by omega) found
    have place := located cell inside
    have index := linear_lt place.inside
    rw [Nat.one_mul] at product
    rcases markCells_spec (by simp) covered _ (by simpa [product] using index) with
      before | ⟨record, member, stored, sameRank, same⟩
    · rw [List.getElem?_replicate] at before
      split at before <;> simp at before
    · obtain ⟨chunk, aligned, cellAt⟩ := blockCell_spec (by omega) long positive same
      rw [Nat.zero_mul, Nat.zero_add] at cellAt
      exact ⟨record, member, stored, sameRank,
        chunk.inBox place aligned (linear_injective chunk.inside place.inside cellAt.symm)⟩

end Oxcdf.Read
