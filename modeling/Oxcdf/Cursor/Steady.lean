import Oxcdf.Cursor

/-! Parsers that only move forward and never panic. Every field reader is one,
and so is whatever is put together from them. -/

set_option autoImplicit false

namespace Oxcdf

open Foundation Foundation.Format

namespace Cursor

variable {α β : Type}

def InBounds (cursor : Cursor) : Prop := cursor.pos ≤ cursor.buf.length

/-- A later cursor over the same buffer, in bounds if the earlier one is. -/
structure Ahead (first later : Cursor) : Prop where
  buf : later.buf = first.buf
  pos : first.pos ≤ later.pos
  inBounds : first.InBounds → later.InBounds

theorem Ahead.refl (cursor : Cursor) : Ahead cursor cursor := ⟨rfl, Nat.le_refl _, id⟩

theorem Ahead.trans (first middle later : Cursor) (one : Ahead first middle) (two : Ahead middle later) :
    Ahead first later :=
  ⟨two.buf.trans one.buf, one.pos.trans two.pos, fun within => two.inBounds (one.inBounds within)⟩

theorem Ahead.remaining_le {first later : Cursor} (ahead : Ahead first later) :
    later.remaining ≤ first.remaining := by
  have pos := ahead.pos
  unfold remaining
  rw [ahead.buf]
  omega

/-- A parser that never moves back. -/
abbrev Forward (step : Parse α) : Prop := step.Moves Ahead

theorem Forward.keeps {step : Parse α} (forward : Forward step) (limit : Nat) :
    step.Keeps fun cursor => cursor.remaining < limit :=
  fun cursor small => Nat.lt_of_le_of_lt (forward cursor).remaining_le small

theorem Forward.bind {step : Parse α} {next : α → Parse β} (first : Forward step)
    (rest : ∀ a, Forward (next a)) : Forward (step >>= next) := Session.Moves.bind Ahead.trans first rest

theorem Forward.lift (outcome : Code α) : Forward (Session.lift outcome : Parse α) := Ahead.refl

theorem Forward.pure (a : α) : Forward (pure a : Parse α) := Ahead.refl

theorem Forward.throw (e : Error) : Forward (Session.throw e : Parse α) := Ahead.refl

theorem Forward.times {step : Parse α} (each : Forward step) (count : Nat) :
    Forward (Format.times step count) := moves_times Ahead.refl Ahead.trans each count

theorem Forward.ite {condition : Prop} [Decidable condition] {first second : Parse α}
    (yes : Forward first) (no : Forward second) : Forward (if condition then first else second) := by
  split
  · exact yes
  · exact no

structure Steady (step : Parse α) : Prop where
  forward : Forward step
  safe : ∀ cursor : Cursor, cursor.InBounds → ¬ step.Panics cursor

namespace Steady

theorem pure (a : α) : Steady (pure a : Parse α) := ⟨Forward.pure a, fun _ _ => nofun⟩

theorem throw (e : Error) : Steady (Session.throw e : Parse α) := ⟨Forward.throw e, fun _ _ => nofun⟩

theorem lift {outcome : Code α} (safe : ∀ why, outcome ≠ .panic why) :
    Steady (Session.lift outcome : Parse α) :=
  ⟨Forward.lift outcome, fun _ _ ⟨why, panics⟩ => safe why panics⟩

theorem bind {step : Parse α} {next : α → Parse β} (first : Steady step) (rest : ∀ a, Steady (next a)) :
    Steady (step >>= next) := by
  refine ⟨first.forward.bind fun a => (rest a).forward, fun cursor within => ?_⟩
  rw [Session.panics_bind]
  rintro (here | ⟨a, after, found, later⟩)
  · exact first.safe cursor within here
  · have ahead := first.forward cursor
    rw [found] at ahead
    exact (rest a).safe after (ahead.inBounds within) later

/-- What the first step yields may be assumed of its value in the second. -/
theorem bind_yields {property : α → Prop} {step : Parse α} {next : α → Parse β} (first : Steady step)
    (yields : step.Yields property) (forward : ∀ a, Forward (next a))
    (rest : ∀ a, property a → Steady (next a)) : Steady (step >>= next) := by
  refine ⟨first.forward.bind forward, fun cursor within => ?_⟩
  rw [Session.panics_bind]
  rintro (here | ⟨a, after, found, later⟩)
  · exact first.safe cursor within here
  · have ahead := first.forward cursor
    rw [found] at ahead
    exact (rest a (yields cursor a after found)).safe after (ahead.inBounds within) later

theorem times {step : Parse α} (each : Steady step) (count : Nat) : Steady (Format.times step count) := by
  induction count with
  | zero => exact pure []
  | succ count ih => exact each.bind fun _ => ih.bind fun _ => pure _

/-- What follows a steady parser panics, if anything does. -/
theorem panics_bind {step : Parse α} {next : α → Parse β} (first : Steady step) {cursor : Cursor}
    (within : cursor.InBounds) :
    (step >>= next).Panics cursor ↔
      ∃ a after, step cursor = (.ok a, after) ∧ after.InBounds ∧ (next a).Panics after := by
  rw [Session.panics_bind]
  constructor
  · rintro (here | ⟨a, after, found, later⟩)
    · exact absurd here (first.safe cursor within)
    · have ahead := first.forward cursor
      rw [found] at ahead
      exact ⟨a, after, found, ahead.inBounds within, later⟩
  · rintro ⟨a, after, found, -, later⟩
    exact .inr ⟨a, after, found, later⟩

/-- A parser chosen by a condition. -/
theorem ite {condition : Prop} [Decidable condition] {first second : Parse α} (yes : Steady first)
    (no : Steady second) : Steady (if condition then first else second) := by
  split
  · exact yes
  · exact no

end Steady

section Fields

variable (sizes : Sizes)

theorem take_eq_ok {n : Nat} {cursor after : Cursor} {bytes : Bytes} :
    take n cursor = (.ok bytes, after) ↔
      cursor.pos + n ≤ cursor.buf.length ∧ bytes = Buffer.slice cursor.buf cursor.pos n ∧
        after = { cursor with pos := cursor.pos + n } := by
  unfold take Format.take
  split
  · next past =>
    refine ⟨fun impossible => (nomatch impossible), fun ⟨room, _⟩ => ?_⟩
    exact absurd room (Nat.not_le.mpr past)
  · next room =>
    simp only [Prod.mk.injEq, Outcome.ok.injEq, eq_comm, Nat.not_lt.mp room, true_and]

theorem steady_take (n : Nat) : Steady (take n) := by
  constructor
  · intro cursor
    unfold take Format.take
    split
    · exact Ahead.refl cursor
    · next room => exact ⟨rfl, Nat.le_add_right _ _, fun _ => Nat.not_lt.mp room⟩
  · intro cursor _
    unfold Session.Panics take Format.take
    split <;> simp

theorem steady_skip (n : Nat) : Steady (skip n) := (steady_take n).bind fun _ => Steady.pure ()

theorem steady_skipIf (present : Bool) (n : Nat) : Steady (skipIf present n) := by
  unfold skipIf
  exact Steady.ite (steady_skip n) (Steady.pure ())

theorem yields_take (n : Nat) : (take n).Yields fun bytes => bytes.length = n := by
  intro cursor bytes after found
  obtain ⟨room, rfl, -⟩ := take_eq_ok.mp found
  exact Buffer.slice_length _ room

theorem yields_field (width : Nat) :
    (take width >>= fun bytes => (pure (ofLittleEndian bytes) : Parse Nat)).Yields
      fun n => n < 256 ^ width := by
  refine (yields_take width).bind fun bytes length => Session.Yields.pure ?_
  exact length ▸ ofLittleEndian_lt bytes

theorem yields_u8 : u8.Yields fun n => n < 256 ^ 1 := yields_field 1

theorem yields_u16 : u16.Yields fun n => n < 256 ^ 2 := yields_field 2

theorem yields_u32 : u32.Yields fun n => n < 256 ^ 4 := yields_field 4

theorem yields_uint (width : Nat) : (uint width).Yields fun n => n < 256 ^ width := by
  unfold uint
  split
  · exact Session.Yields.pure (Nat.pow_pos (by decide))
  · split
    · exact Session.Yields.throw _
    · exact yields_field width

/-- A product of small counts does not overflow. -/
theorem product_of_lt {x y : Nat} (small : x * y < wordSize) : product x y = pure (x * y) := by
  unfold product Build.mul
  rw [Build.word_of_lt _ small]
  rfl

theorem forward_product (x y : Nat) : Forward (product x y) := Forward.lift _

theorem forward_skipEach (present : Bool) (count width : Nat) : Forward (skipEach present count width) := by
  unfold skipEach
  split
  · exact (forward_product count width).bind fun n => (steady_skip n).forward
  · exact Forward.pure ()

theorem steady_skipEach (present : Bool) {count width : Nat} (small : count * width < wordSize) :
    Steady (skipEach present count width) := by
  unfold skipEach
  rw [product_of_lt small]
  exact Steady.ite ((Steady.pure _).bind fun n => steady_skip n) (Steady.pure ())

theorem steady_u8 : Steady u8 := (steady_take 1).bind fun _ => Steady.pure _

theorem steady_u16 : Steady u16 := (steady_take 2).bind fun _ => Steady.pure _

theorem steady_u32 : Steady u32 := (steady_take 4).bind fun _ => Steady.pure _

theorem steady_u64 : Steady u64 := (steady_take 8).bind fun _ => Steady.pure _

theorem steady_uint (width : Nat) : Steady (uint width) := by
  unfold uint
  refine Steady.ite (Steady.pure 0) (Steady.ite (Steady.throw _) ?_)
  exact (steady_take width).bind fun _ => Steady.pure _

theorem steady_address : Steady (address sizes) :=
  (steady_uint sizes.offset).bind fun _ => Steady.pure _

theorem steady_addressRequired (what : String) : Steady (addressRequired sizes what) := by
  refine (steady_address sizes).bind fun found => ?_
  cases found with
  | none => exact Steady.throw _
  | some raw => exact Steady.pure raw

theorem steady_length : Steady (length sizes) := steady_uint sizes.length

theorem steady_left : Steady left := ⟨Ahead.refl, fun _ _ => nofun⟩

theorem steady_position : Steady position := ⟨Ahead.refl, fun _ _ => nofun⟩

theorem untilNul_length_le (bytes : Bytes) : (untilNul bytes).length ≤ bytes.length :=
  (List.takeWhile_sublist _).length_le

theorem steady_cstring : Steady cstring := by
  constructor
  · intro cursor
    unfold cstring
    split
    · exact Ahead.refl cursor
    · have within := untilNul_length_le (cursor.buf.drop cursor.pos)
      rw [List.length_drop] at within
      dsimp only
      split
      · exact Ahead.refl cursor
      · next shorter =>
        rw [List.length_drop] at shorter
        refine ⟨rfl, by dsimp only; omega, fun _ => ?_⟩
        unfold InBounds
        dsimp only
        omega
  · intro cursor within
    unfold Session.Panics cstring
    rw [if_neg (Nat.not_lt.mpr within)]
    dsimp only
    split <;> simp

theorem steady_cstringPadded (align : Nat) : Steady (cstringPadded align) := by
  refine steady_position.bind fun start => steady_cstring.bind fun text => steady_position.bind fun stop => ?_
  dsimp only
  split
  · exact (steady_skip _).bind fun _ => Steady.pure text
  · exact (Steady.pure ()).bind fun _ => Steady.pure text

end Fields

end Cursor

end Oxcdf
