import Oxcdf.Cursor.Steady
import Oxcdf.View

/-! When reading a structure of the file panics: its parsers never do, its checksum is
verified inside it, and a request is refused only when no allocation may be as large. -/

set_option autoImplicit false

namespace Oxcdf

open Foundation Foundation.Buffer Foundation.Format Cursor

section Starts

variable (signature : Bytes) (what : String)

theorem steady_signature : Steady (expectSignature signature what) :=
  (steady_take 4).bind fun _ => Steady.ite (Steady.throw _) (Steady.pure ())

/-- What starts with four bytes is read of a buffer that has them. -/
theorem four_le_of_take {α : Type} {next : Bytes → Parse α} {block : Bytes} {a : α} {cursor : Cursor}
    (opened : (take 4 >>= next) (Cursor.start block) = (.ok a, cursor)) : 4 ≤ block.length := by
  obtain ⟨bytes, after, taken, -⟩ := Session.bind_eq_ok.mp opened
  have room := (take_eq_ok.mp taken).1
  change 0 + 4 ≤ block.length at room
  omega

end Starts

/-- A parser that starts at the front of a buffer. -/
theorem inBounds_start (block : Bytes) : (Cursor.start block).InBounds := Nat.zero_le _

theorem Cursor.Steady.fst_safe {α : Type} {step : Parse α} (steady : Steady step) {cursor : Cursor}
    (within : cursor.InBounds) : ¬ (step cursor).1.Panics := steady.safe cursor within

theorem Cursor.Steady.inBounds {α : Type} {step : Parse α} (steady : Steady step) {cursor after : Cursor}
    {a : α} (within : cursor.InBounds) (found : step cursor = (.ok a, after)) : after.InBounds := by
  have ahead := steady.forward cursor
  rw [found] at ahead
  exact ahead.inBounds within

theorem verifyChecksum_safe {buf : Bytes} (four : 4 ≤ buf.length) (what : String) :
    ¬ (verifyChecksum buf (buf.length - 4) what).Panics := by
  rw [verifyChecksum, range_of_le buf (by omega), Outcome.ok_bind]
  dsimp only
  split
  · exact Outcome.not_panics_error _
  · exact Outcome.not_panics_ok ()

namespace View

variable {view : View} {address len : Nat}

theorem read_panics : (view.read address len).Panics ↔ isizeMax < len := by
  rcases Nat.lt_or_ge isizeMax len with large | small
  · have refused : view.read address len = .panic .capacity := by
      change (zeroed len >>= fun _ => _) = _
      rw [zeroed, if_neg (Nat.not_le.mpr large)]
      rfl
    simp [refused, large]
  · rw [View.read, fileSource_readVec view.file _ _ small]
    refine ⟨fun panics => ?_, fun large => absurd large (Nat.not_lt.mpr small)⟩
    split at panics
    · exact absurd panics (Outcome.not_panics_ok _)
    · exact absurd panics (Outcome.not_panics_error _)

theorem read_length {block : Bytes} (found : view.read address len = .ok block) : block.length = len :=
  (holds_of_readVec found).2

/-- A window stops at the end of the file, and no file is larger than an allocation may be. -/
theorem readUpto_safe : ¬ (view.readUpto address len).Panics := by
  have bounded : view.size ≤ isizeMax := view.file.bounded
  have small : min len (view.size - view.resolve address) ≤ isizeMax := by omega
  rw [readUpto, fileSource_readVec view.file _ _ small]
  split
  · exact Outcome.not_panics_ok _
  · exact Outcome.not_panics_error _

/-- A structure of the file that starts as it should and bears its checksum: its bytes, what is
read of its front, and where its contents start. -/
structure Opens {α : Type} (view : View) (front : Parse α) (address len : Nat) (what : String)
    (block : Bytes) (found : α) (cursor : Cursor) : Prop where
  read : view.read address len = .ok block
  front : front (Cursor.start block) = (.ok found, cursor)
  checksum : verifyChecksum block (len - 4) what = .ok ()

theorem Opens.inBounds {α : Type} {front : Parse α} {what : String} {block : Bytes} {found : α}
    {cursor : Cursor} (opened : view.Opens front address len what block found cursor) (steady : Steady front) :
    cursor.InBounds := steady.inBounds (inBounds_start block) opened.front

/-- Opening a structure panics when the request for it does; what is done with it after that
may panic on its own. -/
theorem open_panics {α β : Type} {front : Parse α} {what : String} (rest : Bytes → α → Cursor → Code β)
    (checksumAt : Bytes → Nat) (last : ∀ block : Bytes, block.length = len → checksumAt block = len - 4)
    (steady : Steady front)
    (four : ∀ block found cursor, front (Cursor.start block) = (.ok found, cursor) → 4 ≤ block.length) :
    (view.read address len >>= fun block => (front (Cursor.start block)).1 >>= fun found =>
      verifyChecksum block (checksumAt block) what >>= fun _ =>
        rest block found (front (Cursor.start block)).2).Panics ↔
    isizeMax < len ∨ ∃ block found cursor, view.Opens front address len what block found cursor ∧
      (rest block found cursor).Panics := by
  rw [Outcome.panics_bind, read_panics]
  apply or_congr_right
  constructor
  · rintro ⟨block, read, panics⟩
    have whole := read_length read
    rw [Outcome.panics_bind] at panics
    obtain ⟨found, parsed, later⟩ := panics.resolve_left (steady.fst_safe (inBounds_start block))
    have front : front (Cursor.start block) = (.ok found, (front (Cursor.start block)).2) := Prod.ext parsed rfl
    have checked : ¬ (verifyChecksum block (len - 4) what).Panics :=
      whole ▸ verifyChecksum_safe (four block found _ front) what
    rw [Outcome.panics_bind, last block whole] at later
    obtain ⟨⟨⟩, checksum, panics⟩ := later.resolve_left checked
    exact ⟨block, found, _, ⟨read, front, checksum⟩, panics⟩
  · rintro ⟨block, found, cursor, opened, panics⟩
    refine ⟨block, opened.read, ?_⟩
    rw [opened.front, Outcome.ok_bind, last block (read_length opened.read), opened.checksum]
    exact panics

end View

end Oxcdf
