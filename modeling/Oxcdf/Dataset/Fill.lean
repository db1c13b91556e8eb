import Oxcdf.Dataset
import Oxcdf.Foundation.Loop
import Oxcdf.Foundation.Repetition

/-! What a filled buffer holds: the fill value, element after element.

The buffer is filled by copying what is filled already, twice as much each time, and
less the last time. Every copy but the last ends at a whole element, so that the next
one starts at one.
-/

set_option autoImplicit false

namespace Oxcdf.FillValue

open Foundation Foundation.Buffer

section Filled

theorem tile_length : ∀ (budget done : Nat) (buf : Bytes), (tile budget done buf).length = buf.length
  | 0, _, _ => rfl
  | budget + 1, done, buf => by
    unfold tile
    split
    · next more =>
      rw [tile_length, splice_length]
      have := List.length_take_le (min done (buf.length - done)) (buf.drop 0)
      simp only [slice]
      omega
    · rfl

theorem fill_length (value : FillValue) (buf : Bytes) (elementSize : Nat) :
    (value.fill buf elementSize).length = buf.length := by
  unfold fill
  split
  · simp
  · split
    · simp
    · split
      · simp
      · simp only []
        rw [tile_length, splice_length]
        simp

/-- One element of storage that was never written. -/
def element (value : FillValue) (elementSize : Nat) : Bytes :=
  match value.bytes with
  | none => List.replicate elementSize 0
  | some bytes =>
    if bytes = [] ∨ elementSize = 0 then List.replicate elementSize 0
    else if bytes.length ≠ elementSize then List.replicate elementSize 0
    else bytes

theorem element_length (value : FillValue) (elementSize : Nat) :
    (value.element elementSize).length = elementSize := by
  unfold element
  split
  · exact List.length_replicate
  · split
    · exact List.length_replicate
    · split
      · exact List.length_replicate
      · next same => exact not_not.mp same

/-- A fill value that is exactly one element wide, of an element that has bytes. -/
def Exact (value : FillValue) (elementSize : Nat) (bytes : Bytes) : Prop :=
  value.bytes = some bytes ∧ bytes.length = elementSize ∧ 0 < elementSize

variable {value : FillValue} {bytes buf : Bytes} {elementSize : Nat}

theorem Exact.element_eq (exact_ : value.Exact elementSize bytes) : value.element elementSize = bytes := by
  obtain ⟨held, width, positive⟩ := exact_
  have some_ : bytes ≠ [] := List.ne_nil_of_length_pos (by omega)
  simp only [element, held, some_, Nat.ne_of_gt positive, or_self, if_false, width, ne_eq, not_true_eq_false]

/-- A buffer is tiled with a value that is exactly one element wide. -/
theorem Exact.fill_eq (exact_ : value.Exact elementSize bytes) :
    value.fill buf elementSize =
      tile buf.length (min elementSize buf.length) (splice buf 0 (bytes.take (min elementSize buf.length))) := by
  obtain ⟨held, width, positive⟩ := exact_
  have some_ : bytes ≠ [] := List.ne_nil_of_length_pos (by omega)
  simp only [fill, held, some_, Nat.ne_of_gt positive, or_self, if_false, width, ne_eq, not_true_eq_false]

/-- Any other value counts for nothing. -/
theorem fill_of_not_exact (other : ¬ ∃ bytes, value.Exact elementSize bytes) :
    value.fill buf elementSize = List.replicate buf.length 0 ∧
      value.element elementSize = List.replicate elementSize 0 := by
  cases held : value.bytes with
  | none => simp only [fill, element, held, and_self]
  | some bytes =>
    by_cases nothing : bytes = [] ∨ elementSize = 0
    · simp only [fill, element, held, if_pos nothing, and_self]
    · have positive : 0 < elementSize := Nat.pos_of_ne_zero fun zero => nothing (.inr zero)
      have width : bytes.length ≠ elementSize := fun same => other ⟨bytes, held, same, positive⟩
      simp only [fill, element, held, if_neg nothing, if_pos width, and_self]

/-- A copy that is not the last one ends at a whole element, as the next one needs. -/
theorem tile_repeats (budget : Nat) : ∀ {done : Nat} {buf : Bytes}, buf.length ≤ budget + done → 0 < done →
    bytes.length ∣ done ∨ done = buf.length → done ≤ buf.length → Repeats bytes buf done →
    Repeats bytes (tile budget done buf) buf.length := by
  induction budget with
  | zero =>
    intro done buf enough _ _ _ repeats i before
    exact repeats i (by omega)
  | succ budget ih =>
    intro done buf enough started whole within repeats
    rw [tile]
    split
    · next more =>
      have room : done + min done (buf.length - done) ≤ buf.length := by omega
      have copied : (slice buf 0 (min done (buf.length - done))).length = min done (buf.length - done) :=
        slice_length buf (by omega)
      have long : (splice buf done (slice buf 0 (min done (buf.length - done)))).length = buf.length :=
        splice_length buf (by omega)
      have elements : bytes.length ∣ done := whole.resolve_right (Nat.ne_of_lt more)
      have next := repeats.copy elements (Nat.min_le_left _ _) room
      -- The copy doubles whole elements, or it is the last one.
      have ends : bytes.length ∣ done + min done (buf.length - done) ∨
          done + min done (buf.length - done) = buf.length := by
        rcases Nat.le_total done (buf.length - done) with twice | rest
        · rw [Nat.min_eq_left twice]
          exact .inl (Nat.dvd_add elements elements)
        · exact .inr (by omega)
      have later := @ih (done + min done (buf.length - done))
        (splice buf done (slice buf 0 (min done (buf.length - done))))
      rw [long] at later
      exact later (by omega) (by omega) ends room next
    · exact fun i before => repeats i (by omega)

/-- A filled buffer repeats the fill value, also where its end cuts an element. -/
theorem fill_repeats (value : FillValue) (buf : Bytes) (positive : 0 < elementSize) :
    Repeats (value.element elementSize) (value.fill buf elementSize) buf.length := by
  by_cases tiled : ∃ bytes, value.Exact elementSize bytes
  · obtain ⟨bytes, exact_⟩ := tiled
    rw [exact_.element_eq, exact_.fill_eq]
    obtain ⟨-, width, -⟩ := exact_
    rcases Nat.eq_zero_or_pos buf.length with empty | some_
    · exact fun i before => absurd before (by omega)
    · have head : (bytes.take (min elementSize buf.length)).length = min elementSize buf.length :=
        List.length_take_of_le (by omega)
      have long := @splice_length _ buf 0 (bytes.take (min elementSize buf.length)) (by omega)
      have start : Repeats bytes (splice buf 0 (bytes.take (min elementSize buf.length)))
          (min elementSize buf.length) := Repeats.of_start (by omega) (by omega)
      have ends : bytes.length ∣ min elementSize buf.length ∨ min elementSize buf.length = buf.length := by
        rcases Nat.le_total elementSize buf.length with more | short
        · rw [Nat.min_eq_left more, width]
          exact .inl (dvd_refl elementSize)
        · exact .inr (Nat.min_eq_right short)
      have tiled := @tile_repeats bytes buf.length (min elementSize buf.length)
        (splice buf 0 (bytes.take (min elementSize buf.length)))
      rw [long] at tiled
      exact tiled (by omega) (by omega) ends (by omega) start
  · obtain ⟨filled, one⟩ := @fill_of_not_exact value buf elementSize tiled
    rw [filled, one]
    exact repeats_replicate 0 positive buf.length

theorem getElem?_fill (value : FillValue) (positive : 0 < elementSize) {i : Nat} (inside : i < buf.length) :
    (value.fill buf elementSize)[i]? = (value.element elementSize)[i % elementSize]? := by
  have found := value.fill_repeats buf positive i inside
  rwa [element_length] at found

end Filled

section Checked

/-- One turn of the loop of `fill`, with its slices checked and its arithmetic in words:
what is done, and the buffer. -/
def turn (build : Build) : Nat × Bytes → Code (Nat × Bytes)
  | (done, buf) => do
    let left ← build.sub buf.length done
    let take := min done left
    -- `split_at_mut`, and the starts of its halves.
    let written ← range buf 0 done
    let source ← range written 0 take
    let buf ← copyInto buf done (done + take) source
    let done ← build.add done take
    pure (done, buf)

/-- The loop goes on while some of the buffer is left. -/
def Unfilled : Nat × Bytes → Prop
  | (done, buf) => done < buf.length

/-- `fill` as it runs ends in an outcome. -/
def FillEnds (build : Build) (value : FillValue) (buf : Bytes) (elementSize : Nat) (outcome : Code Bytes) : Prop :=
  match value.bytes with
  | none => outcome = .ok (List.replicate buf.length 0)
  | some bytes =>
    if bytes = [] ∨ elementSize = 0 then outcome = .ok (List.replicate buf.length 0)
    else if bytes.length ≠ elementSize then outcome = .ok (List.replicate buf.length 0)
    else
      let head := min elementSize buf.length
      let start : Code (Nat × Bytes) := do
        let first ← range bytes 0 head
        let buf ← copyInto buf 0 head first
        pure (head, buf)
      match start with
      | .ok state => ∃ last, LoopEnds Unfilled (turn build) state last ∧ outcome = Prod.snd <$> last
      | .error e => outcome = .error e
      | .panic why => outcome = .panic why

variable {build : Build} {value : FillValue} {bytes buf : Bytes} {elementSize : Nat}

/-- A turn copies as `tile` does. -/
theorem turn_eq {done : Nat} (more : done < buf.length) (held : buf.length ≤ isizeMax) :
    turn build (done, buf) = .ok (done + min done (buf.length - done),
      splice buf done (slice buf 0 (min done (buf.length - done)))) := by
  have words := isizeMax_lt_wordSize
  have front : slice (slice buf 0 done) 0 (min done (buf.length - done)) =
      slice buf 0 (min done (buf.length - done)) := by
    simp only [slice, List.drop_zero, List.take_take, Nat.min_eq_left (Nat.min_le_left done _)]
  have left : (build.sub buf.length done : Code Nat) = .ok (buf.length - done) := Build.sub_of_le build more.le
  have written : (range buf 0 done : Code Bytes) = .ok (slice buf 0 done) :=
    range_eq_ok.mpr ⟨Nat.zero_le _, more.le, rfl⟩
  have source : (range (slice buf 0 done) 0 (min done (buf.length - done)) : Code Bytes) =
      .ok (slice buf 0 (min done (buf.length - done))) := by
    have long : (slice buf 0 done).length = done := slice_length buf (by omega)
    exact range_eq_ok.mpr ⟨Nat.zero_le _, by omega, by rw [Nat.sub_zero, front]⟩
  have copied : (slice buf 0 (min done (buf.length - done))).length = min done (buf.length - done) :=
    slice_length buf (by omega)
  have stored : (copyInto buf done (done + min done (buf.length - done))
      (slice buf 0 (min done (buf.length - done))) : Code Bytes) =
      .ok (splice buf done (slice buf 0 (min done (buf.length - done)))) :=
    if_pos ⟨Nat.le_add_right _ _, by omega, by omega⟩
  have sum : (build.add done (min done (buf.length - done)) : Code Nat) =
      .ok (done + min done (buf.length - done)) := Build.word_of_lt build (by omega)
  simp only [turn, left, written, source, stored, sum, Outcome.ok_bind, Outcome.pure_eq]

/-- The loop ends in what `tile` computes, whatever the budget of `tile` beyond the buffer's length. -/
theorem loopEnds_tile {budget done : Nat} (enough : buf.length ≤ budget + done)
    (started : 0 < done ∨ buf.length ≤ done) (held : buf.length ≤ isizeMax) :
    ∃ last, LoopEnds Unfilled (turn build) (done, buf) (.ok (last, tile budget done buf)) := by
  -- Carried along: `tile`, with what is left of its budget, goes from here to the same buffer.
  have ends := @LoopEnds.of_measure _ _ Unfilled (turn build)
    (fun state => (0 < state.1 ∨ state.2.length ≤ state.1) ∧ state.2.length ≤ isizeMax ∧ ∃ rest,
      state.2.length ≤ rest + state.1 ∧ tile rest state.1 state.2 = tile budget done buf)
    (fun state => state.2.length - state.1) ?_ (done, buf) ⟨started, held, budget, enough, rfl⟩
  · obtain ⟨⟨last, filled⟩, ends, ⟨-, -, rest, -, same⟩, none_⟩ := ends
    have final : tile rest last filled = filled := by
      cases rest with
      | zero => rfl
      | succ rest => exact if_neg none_
    rw [final] at same
    exact ⟨last, same ▸ ends⟩
  · rintro ⟨done, buf⟩ ⟨started, held, rest, enough, same⟩ (more : done < buf.length)
    dsimp only at started held enough same ⊢
    have copied : (slice buf 0 (min done (buf.length - done))).length = min done (buf.length - done) :=
      slice_length buf (by omega)
    have long := @splice_length _ buf done (slice buf 0 (min done (buf.length - done))) (by omega)
    refine ⟨_, turn_eq more held, ⟨by omega, by rwa [long], ?_⟩, by dsimp only; omega⟩
    cases rest with
    | zero => exact absurd more (by omega)
    | succ rest =>
      rw [tile, if_pos more] at same
      exact ⟨rest, by dsimp only; omega, same⟩

/-- What the loop starts from: the first element at the front of the buffer. -/
theorem Exact.start_eq (exact_ : value.Exact elementSize bytes) :
    (do
      let first ← range bytes 0 (min elementSize buf.length)
      let started ← copyInto buf 0 (min elementSize buf.length) first
      pure (min elementSize buf.length, started) : Code (Nat × Bytes)) =
      .ok (min elementSize buf.length, splice buf 0 (bytes.take (min elementSize buf.length))) := by
  obtain ⟨-, width, -⟩ := exact_
  have first : (range bytes 0 (min elementSize buf.length) : Code Bytes) =
      .ok (bytes.take (min elementSize buf.length)) :=
    range_eq_ok.mpr ⟨Nat.zero_le _, by omega, rfl⟩
  have head : (bytes.take (min elementSize buf.length)).length = min elementSize buf.length :=
    List.length_take_of_le (by omega)
  have stored : (copyInto buf 0 (min elementSize buf.length) (bytes.take (min elementSize buf.length)) :
      Code Bytes) = .ok (splice buf 0 (bytes.take (min elementSize buf.length))) :=
    if_pos ⟨Nat.zero_le _, Nat.min_le_right _ _, head⟩
  simp only [first, stored, Outcome.ok_bind, Outcome.pure_eq]

theorem Exact.fillEnds_iff (exact_ : value.Exact elementSize bytes) (held : buf.length ≤ isizeMax)
    (outcome : Code Bytes) :
    FillEnds build value buf elementSize outcome ↔ outcome = .ok (value.fill buf elementSize) := by
  have start := @Exact.start_eq value bytes buf elementSize exact_
  rw [exact_.fill_eq]
  obtain ⟨found, width, positive⟩ := exact_
  have some_ : bytes ≠ [] := List.ne_nil_of_length_pos (by omega)
  have head : (bytes.take (min elementSize buf.length)).length = min elementSize buf.length :=
    List.length_take_of_le (by omega)
  have long := @splice_length _ buf 0 (bytes.take (min elementSize buf.length)) (by omega)
  obtain ⟨last, ends⟩ := @loopEnds_tile build (splice buf 0 (bytes.take (min elementSize buf.length)))
    buf.length (min elementSize buf.length) (by omega) (by omega) (by omega)
  simp only [FillEnds, found, some_, Nat.ne_of_gt positive, or_self, if_false, width, ne_eq, not_true_eq_false,
    start]
  constructor
  · rintro ⟨other, stops, rfl⟩
    rw [stops.unique ends]
    rfl
  · rintro rfl
    exact ⟨_, ends, rfl⟩

theorem fillEnds_of_not_exact (other : ¬ ∃ bytes, value.Exact elementSize bytes) (outcome : Code Bytes) :
    FillEnds build value buf elementSize outcome ↔ outcome = .ok (List.replicate buf.length 0) := by
  cases found : value.bytes with
  | none => simp only [FillEnds, found]
  | some bytes =>
    by_cases nothing : bytes = [] ∨ elementSize = 0
    · simp only [FillEnds, found, if_pos nothing]
    · have positive : 0 < elementSize := Nat.pos_of_ne_zero fun zero => nothing (.inr zero)
      have width : bytes.length ≠ elementSize := fun same => other ⟨bytes, found, same, positive⟩
      simp only [FillEnds, found, if_neg nothing, if_pos width]

/-- `fill` as it runs ends, without a panic, in what `fill` computes. -/
theorem fillEnds_iff (held : buf.length ≤ isizeMax) (outcome : Code Bytes) :
    FillEnds build value buf elementSize outcome ↔ outcome = .ok (value.fill buf elementSize) := by
  by_cases tiled : ∃ bytes, value.Exact elementSize bytes
  · obtain ⟨bytes, exact_⟩ := tiled
    exact exact_.fillEnds_iff held outcome
  · rw [(fill_of_not_exact tiled).1]
    exact fillEnds_of_not_exact tiled outcome

/-- Each byte of a filled buffer is the byte of the fill value at the remainder, where the value is exactly
one element wide, and zero otherwise; and the loop that fills it ends. -/
theorem fill_tiles (value : FillValue) (buf : Bytes) (elementSize : Nat) :
    (value.fill buf elementSize).length = buf.length ∧
    (∀ bytes, value.Exact elementSize bytes → ∀ i < buf.length,
      (value.fill buf elementSize)[i]? = bytes[i % elementSize]?) ∧
    ((¬ ∃ bytes, value.Exact elementSize bytes) →
      value.fill buf elementSize = List.replicate buf.length 0) ∧
    (buf.length ≤ isizeMax → ∀ build outcome,
      FillEnds build value buf elementSize outcome ↔ outcome = .ok (value.fill buf elementSize)) := by
  refine ⟨fill_length value buf elementSize, ?_, fun other => (fill_of_not_exact other).1,
    fun held build outcome => fillEnds_iff held outcome⟩
  intro bytes exact_ i inside
  rw [getElem?_fill value exact_.2.2 inside, exact_.element_eq]

/-- Ten bytes are two elements of four bytes and half of one. -/
theorem fill_tiles_tenBytes :
    (({ bytes := some [1, 2, 3, 4] } : FillValue).fill (List.replicate 10 0) 4)[9]? = some 2 ∧
    FillEnds .debug { bytes := some [1, 2, 3, 4] } (List.replicate 10 0) 4
      (.ok [1, 2, 3, 4, 1, 2, 3, 4, 1, 2]) := by
  obtain ⟨-, tiled, -, ends⟩ := fill_tiles { bytes := some [1, 2, 3, 4] } (List.replicate 10 0) 4
  exact ⟨tiled [1, 2, 3, 4] ⟨rfl, rfl, by decide⟩ 9 (by decide), (ends (by decide) .debug _).mpr (by decide)⟩

end Checked

end Oxcdf.FillValue
