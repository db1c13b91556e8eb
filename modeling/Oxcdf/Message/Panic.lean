import Mathlib.Logic.Relation
import Oxcdf.Message.Attribute
import Oxcdf.Message.Link
import Oxcdf.Message.Nesting
import Oxcdf.Message.Storage

/-! When a message parser panics.

One slice of one parser is not covered by a check: a version 1 compound member
keeps its dimensions in an array of four and slices it by the rank it declares.
A datatype panics exactly when it, or a type nested in it, has a member of more
than four dimensions whose own type parses. No other message parser panics.
-/

set_option autoImplicit false

namespace Oxcdf

open Foundation Foundation.Format Cursor

section Reached

namespace Datatype

/-- What precedes the type of a compound's member, with the rank it declares. -/
def memberPrefix (version size : Nat) : Parse Nat :=
  match version with
  | 1 => do
    let header ← memberHeaderV1
    pure header.2.2.1
  | 2 => do
    let _ ← Cursor.cstringPadded 8
    let _ ← Cursor.u32
    pure 0
  | 3 | 4 => do
    let _ ← Cursor.cstring
    let _ ← Cursor.uint (compoundOffsetWidth size)
    pure 0
  | other => Session.throw (.unsupported s!"compound datatype version {other}")

/-- What precedes the base of a sequence. -/
def vlenPrefix (bitfield : Nat) : Parse Unit := do
  let _ ← Session.lift (vlenKind (bitfield % 2 ^ 4))
  let _ ← Session.lift (stringPad (bitfield / 2 ^ 4 % 2 ^ 4))
  let _ ← Session.lift (charSet (bitfield / 2 ^ 8 % 2 ^ 4))
  pure ()

/-- The compound at one cursor comes to the type of a member at another. -/
structure ReachesMember (cursor : Cursor) (version rank : Nat) (inner : Cursor) : Prop where
  reaches : ∃ bitfield size start turn members here,
    parseHeader cursor = (.ok (version, 6, bitfield, size), start) ∧ turn < bitfield % 2 ^ 16 ∧
      Format.times (parseMember parseAt version size) turn start = (.ok members, here) ∧
      memberPrefix version size here = (.ok rank, inner)

/-- The datatype at one cursor comes to a nested one at another. -/
inductive Nested (cursor : Cursor) : Cursor → Prop where
  | member {version rank : Nat} {inner : Cursor} (reaches : ReachesMember cursor version rank inner) :
    Nested cursor inner
  | enumeration {version bitfield size : Nat} {inner : Cursor}
    (header : parseHeader cursor = (.ok (version, 8, bitfield, size), inner)) : Nested cursor inner
  | variableLength {version bitfield size : Nat} {start inner : Cursor}
    (header : parseHeader cursor = (.ok (version, 9, bitfield, size), start))
    (codes : vlenPrefix bitfield start = (.ok (), inner)) : Nested cursor inner
  | array {version bitfield size : Nat} {start inner : Cursor} {dims : List Nat}
    (header : parseHeader cursor = (.ok (version, 10, bitfield, size), start))
    (shape : arrayDims version start = (.ok dims, inner)) : Nested cursor inner

/-- The compound at a cursor has a version 1 member of more than four dimensions
whose type parses. -/
def Overlong (cursor : Cursor) : Prop :=
  ∃ rank inner, ReachesMember cursor 1 rank inner ∧ 4 < rank ∧ ∃ base after, parseAt inner = (.ok base, after)

/-- The datatype at a cursor, or one nested in it, has such a member. -/
def MeetsOverlong (cursor : Cursor) : Prop :=
  ∃ inner, Relation.ReflTransGen Nested cursor inner ∧ Overlong inner

end Datatype

end Reached

section DatatypePanics

namespace Datatype

/-- A version 1 member always stores four dimensions. -/
theorem memberHeaderV1_dims {cursor after : Cursor} {header : String × Nat × Nat × List Nat}
    (found : memberHeaderV1 cursor = (.ok header, after)) : header.2.2.2.length = 4 := by
  unfold memberHeaderV1 at found
  iterate 6 obtain ⟨_, _, _, found⟩ := Session.bind_eq_ok.mp found
  obtain ⟨dims, middle, four, done⟩ := Session.bind_eq_ok.mp found
  cases done
  exact Format.times_length four

theorem inlineArray_panics {version rank : Nat} {dims : List Nat} {base : Datatype} (four : dims.length = 4) :
    (∃ why, inlineArray version rank dims base = .panic why) ↔ 4 < rank := by
  unfold inlineArray leadingDims
  rw [four]
  split
  · next zero => simp [zero]
  · split
    · next small => simpa using small
    · next large => simpa using large

theorem panics_memberV1 {cursor : Cursor} (within : cursor.InBounds) (size : Nat) :
    (parseMemberV1 parseAt 1).Panics cursor ↔ ∃ rank inner, memberPrefix 1 size cursor = (.ok rank, inner) ∧
      (parseAt.Panics inner ∨ 4 < rank ∧ ∃ base after, parseAt inner = (.ok base, after)) := by
  unfold parseMemberV1
  rw [steady_memberHeaderV1.panics_bind within]
  constructor
  · rintro ⟨⟨name, offset, rank, dims⟩, inner, header, -, later⟩
    refine ⟨rank, inner, Session.bind_eq_ok.mpr ⟨_, inner, header, rfl⟩, ?_⟩
    refine (Session.panics_bind.mp later).imp id ?_
    rintro ⟨base, after, parsed, slices⟩
    have cut := Session.panics_bind_pure.mp slices
    exact ⟨(inlineArray_panics (memberHeaderV1_dims header)).mp cut, base, after, parsed⟩
  · rintro ⟨rank, inner, found, panics⟩
    obtain ⟨⟨name, offset, declared, dims⟩, middle, header, done⟩ := Session.bind_eq_ok.mp found
    cases done
    have ahead := steady_memberHeaderV1.forward cursor
    rw [header] at ahead
    refine ⟨_, inner, header, ahead.inBounds within, Session.panics_bind.mpr (panics.imp id ?_)⟩
    rintro ⟨large, base, after, parsed⟩
    refine ⟨base, after, parsed, Session.panics_bind_pure.mpr ?_⟩
    exact (inlineArray_panics (memberHeaderV1_dims header)).mpr large

theorem panics_afterTwo {α β γ : Type} {one : Parse α} {two : Parse β} (steady : Steady one)
    (also : Steady two) (finish : α → β → Datatype → γ) {cursor : Cursor} (within : cursor.InBounds) :
    (one >>= fun a => two >>= fun b => parseAt >>= fun type => pure (finish a b type)).Panics cursor ↔
      ∃ rank inner, (one >>= fun _ => two >>= fun _ => (pure 0 : Parse Nat)) cursor = (.ok rank, inner) ∧
        parseAt.Panics inner := by
  rw [steady.panics_bind within]
  constructor
  · rintro ⟨a, middle, first, inside, later⟩
    obtain ⟨b, inner, second, -, panics⟩ := (also.panics_bind inside).mp later
    refine ⟨0, inner, ?_, Session.panics_bind_pure.mp panics⟩
    exact Session.bind_eq_ok.mpr ⟨a, middle, first, Session.bind_eq_ok.mpr ⟨b, inner, second, rfl⟩⟩
  · rintro ⟨rank, inner, found, panics⟩
    obtain ⟨a, middle, first, later⟩ := Session.bind_eq_ok.mp found
    obtain ⟨b, last, second, done⟩ := Session.bind_eq_ok.mp later
    cases done
    have ahead := steady.forward cursor
    rw [first] at ahead
    refine ⟨a, middle, first, ahead.inBounds within, Session.panics_bind.mpr (.inr ?_)⟩
    exact ⟨b, inner, second, Session.panics_bind_pure.mpr panics⟩

/-- A member panics in its type, or by its rank once its type is parsed. -/
theorem panics_member {cursor : Cursor} (within : cursor.InBounds) (version size : Nat) :
    (parseMember parseAt version size).Panics cursor ↔ ∃ rank inner,
      memberPrefix version size cursor = (.ok rank, inner) ∧ (parseAt.Panics inner ∨
        version = 1 ∧ 4 < rank ∧ ∃ base after, parseAt inner = (.ok base, after)) := by
  unfold parseMember
  split
  · simpa using panics_memberV1 within size
  · simp only [(by decide : ¬ 2 = 1), false_and, or_false]
    exact panics_afterTwo (steady_cstringPadded 8) steady_u32 CompoundMember.mk within
  · simp only [(by decide : ¬ 3 = 1), false_and, or_false]
    exact panics_afterTwo steady_cstring (steady_uint _) CompoundMember.mk within
  · simp only [(by decide : ¬ 4 = 1), false_and, or_false]
    exact panics_afterTwo steady_cstring (steady_uint _) CompoundMember.mk within
  · next other one two three four =>
    refine iff_of_false (Session.not_panics_throw _ _) ?_
    rintro ⟨rank, inner, found, -⟩
    unfold memberPrefix at found
    split at found
    · exact one rfl
    · exact two rfl
    · exact three rfl
    · exact four rfl
    · cases found

theorem steady_vlenPrefix (bitfield : Nat) : Steady (vlenPrefix bitfield) := by
  refine (Steady.lift (vlenKind_safe _)).bind fun _ => (Steady.lift (stringPad_safe _)).bind fun _ => ?_
  exact (Steady.lift (charSet_safe _)).bind fun _ => Steady.pure ()

theorem panics_lift_bind {α β : Type} {outcome : Code α} (safe : ∀ why, outcome ≠ .panic why)
    {next : α → Parse β} {cursor : Cursor} :
    (Session.lift outcome >>= next).Panics cursor ↔ ∃ a, outcome = .ok a ∧ (next a).Panics cursor := by
  cases outcome with
  | ok a => simp [Session.bind_lift_ok]
  | error e => exact iff_of_false nofun fun ⟨_, found, _⟩ => nomatch found
  | panic why => exact absurd rfl (safe why)

/-- A sequence panics in its base, when its codes are known. -/
theorem panics_vlen {cursor : Cursor} (bitfield : Nat) :
    (parseVlen parseAt bitfield).Panics cursor ↔
      ∃ inner, vlenPrefix bitfield cursor = (.ok (), inner) ∧ parseAt.Panics inner := by
  unfold parseVlen
  rw [panics_lift_bind (vlenKind_safe _)]
  constructor
  · rintro ⟨kind, known, later⟩
    obtain ⟨pad, padded, later⟩ := (panics_lift_bind (stringPad_safe _)).mp later
    obtain ⟨charset, named, later⟩ := (panics_lift_bind (charSet_safe _)).mp later
    refine ⟨cursor, ?_, Session.panics_bind_pure.mp later⟩
    rw [vlenPrefix, known, padded, named]
    rfl
  · rintro ⟨inner, found, panics⟩
    obtain ⟨kind, _, first, found⟩ := Session.bind_eq_ok.mp found
    obtain ⟨pad, _, second, found⟩ := Session.bind_eq_ok.mp found
    obtain ⟨charset, _, third, done⟩ := Session.bind_eq_ok.mp found
    obtain ⟨known, rfl⟩ := Session.lift_eq_ok.mp first
    obtain ⟨padded, rfl⟩ := Session.lift_eq_ok.mp second
    obtain ⟨named, rfl⟩ := Session.lift_eq_ok.mp third
    cases done
    refine ⟨kind, known, (panics_lift_bind (stringPad_safe _)).mpr ⟨pad, padded, ?_⟩⟩
    exact (panics_lift_bind (charSet_safe _)).mpr ⟨charset, named, Session.panics_bind_pure.mpr panics⟩

theorem panics_enum {cursor : Cursor} (within : cursor.InBounds) (version bitfield : Nat) :
    (parseEnum parseAt version bitfield).Panics cursor ↔ parseAt.Panics cursor := by
  unfold parseEnum
  rw [Session.panics_bind]
  refine ⟨fun panics => panics.elim id ?_, .inl⟩
  rintro ⟨base, after, found, later⟩
  have ahead := forward_at cursor
  rw [found] at ahead
  have rest : Steady (do
      let names ← Format.times (parseName version) (bitfield % 2 ^ 16)
      let values ← Format.times (Cursor.take base.size) (bitfield % 2 ^ 16)
      pure (.enumeration base names values) : Parse DatatypeClass) :=
    ((steady_name version).times _).bind fun _ => ((steady_take _).times _).bind fun _ => Steady.pure _
  exact absurd later (rest.safe after (ahead.inBounds within))

theorem panics_array {cursor : Cursor} (within : cursor.InBounds) (version : Nat) :
    (parseArray parseAt version).Panics cursor ↔
      ∃ dims inner, arrayDims version cursor = (.ok dims, inner) ∧ parseAt.Panics inner := by
  unfold parseArray
  rw [(steady_arrayDims version).panics_bind within]
  constructor
  · rintro ⟨dims, inner, found, -, later⟩
    exact ⟨dims, inner, found, Session.panics_bind_pure.mp later⟩
  · rintro ⟨dims, inner, found, panics⟩
    have ahead := (steady_arrayDims version).forward cursor
    rw [found] at ahead
    exact ⟨dims, inner, found, ahead.inBounds within, Session.panics_bind_pure.mpr panics⟩

/-- A compound panics at one of its members, after those before are parsed. -/
theorem panics_compound {cursor : Cursor} (within : cursor.InBounds) (version bitfield size : Nat) :
    (parseCompound parseAt version bitfield size).Panics cursor ↔ ∃ turn < bitfield % 2 ^ 16,
      ∃ members here, Format.times (parseMember parseAt version size) turn cursor = (.ok members, here) ∧
        (parseMember parseAt version size).Panics here ∧ Cursor.InBounds here := by
  unfold parseCompound
  rw [Session.panics_bind_pure, panics_times]
  constructor
  · rintro ⟨turn, small, members, here, found, panics⟩
    have ahead := (forward_member forward_at version size).times turn cursor
    rw [found] at ahead
    exact ⟨turn, small, members, here, found, panics, ahead.inBounds within⟩
  · rintro ⟨turn, small, members, here, found, panics, -⟩
    exact ⟨turn, small, members, here, found, panics⟩

theorem panics_of_class {cursor start : Cursor} {version class_ bitfield size : Nat}
    (header : parseHeader cursor = (.ok (version, class_, bitfield, size), start))
    (panics : (parseClass parseAt version class_ bitfield size).Panics start) : parseAt.Panics cursor := by
  rw [parseAt_eq]
  exact Session.panics_bind.mpr (.inr ⟨_, start, header, Session.panics_bind_pure.mpr panics⟩)

theorem panics_of_member {cursor inner : Cursor} (within : cursor.InBounds) {version rank : Nat}
    (reaches : ReachesMember cursor version rank inner)
    (fails : parseAt.Panics inner ∨ version = 1 ∧ 4 < rank ∧ ∃ base after, parseAt inner = (.ok base, after)) :
    parseAt.Panics cursor := by
  obtain ⟨bitfield, size, start, turn, members, here, header, small, before, reached⟩ := reaches.reaches
  have first := steady_header.forward cursor
  rw [header] at first
  have second := (forward_member forward_at version size).times turn start
  rw [before] at second
  have room := second.inBounds (first.inBounds within)
  refine panics_of_class header ((panics_compound (first.inBounds within) _ _ _).mpr ?_)
  exact ⟨turn, small, members, here, before, (panics_member room _ _).mpr ⟨rank, inner, reached, fails⟩, room⟩

/-- A datatype panics by its own members, or where a nested one does. -/
theorem panics_step {cursor : Cursor} (within : cursor.InBounds) :
    parseAt.Panics cursor ↔ Overlong cursor ∨ ∃ inner, Nested cursor inner ∧ parseAt.Panics inner := by
  have unfolded : parseAt.Panics cursor ↔ (parseWith parseAt).Panics cursor := by
    rw [← parseAt_eq]
  constructor
  · rw [unfolded, parseWith, steady_header.panics_bind within]
    rintro ⟨⟨version, class_, bitfield, size⟩, start, header, inside, later⟩
    have panics := Session.panics_bind_pure.mp later
    unfold parseClass at panics
    split at panics
    · exact absurd panics ((steady_fixedPoint bitfield).safe start inside)
    · exact absurd panics ((steady_floatingPoint bitfield).safe start inside)
    · exact absurd panics ((steady_string bitfield).safe start inside)
    · exact absurd panics ((steady_opaqueTag bitfield).safe start inside)
    · obtain ⟨turn, small, members, here, before, at_, room⟩ := (panics_compound inside _ _ _).mp panics
      obtain ⟨rank, inner, reached, fails⟩ := (panics_member room version size).mp at_
      have reaches : ReachesMember cursor version rank inner :=
        ⟨⟨bitfield, size, start, turn, members, here, header, small, before, reached⟩⟩
      rcases fails with nested | ⟨rfl, large, parsed⟩
      · exact .inr ⟨inner, .member reaches, nested⟩
      · exact .inl ⟨rank, inner, reaches, large, parsed⟩
    · exact absurd panics (Session.not_panics_pure _ _)
    · exact .inr ⟨start, .enumeration header, (panics_enum inside _ _).mp panics⟩
    · obtain ⟨inner, codes, nested⟩ := (panics_vlen bitfield).mp panics
      exact .inr ⟨inner, .variableLength header codes, nested⟩
    · obtain ⟨dims, inner, shape, nested⟩ := (panics_array inside version).mp panics
      exact .inr ⟨inner, .array header shape, nested⟩
    · exact absurd panics (Session.not_panics_pure _ _)
  · rintro (⟨rank, inner, reaches, large, parsed⟩ | ⟨inner, nested, panics⟩)
    · exact panics_of_member within reaches (.inr ⟨rfl, large, parsed⟩)
    · cases nested with
      | member reaches => exact panics_of_member within reaches (.inl panics)
      | enumeration header =>
        have ahead := steady_header.forward cursor
        rw [header] at ahead
        exact panics_of_class header ((panics_enum (ahead.inBounds within) _ _).mpr panics)
      | variableLength header codes =>
        exact panics_of_class header ((panics_vlen _).mpr ⟨inner, codes, panics⟩)
      | array header shape =>
        have ahead := steady_header.forward cursor
        rw [header] at ahead
        exact panics_of_class header ((panics_array (ahead.inBounds within) _).mpr ⟨_, inner, shape, panics⟩)

theorem forward_memberPrefix (version size : Nat) : Forward (memberPrefix version size) := by
  unfold memberPrefix
  split
  · exact steady_memberHeaderV1.forward.bind fun _ => Forward.pure _
  · exact (steady_cstringPadded 8).forward.bind fun _ => steady_u32.forward.bind fun _ => Forward.pure _
  · exact steady_cstring.forward.bind fun _ => (steady_uint _).forward.bind fun _ => Forward.pure _
  · exact steady_cstring.forward.bind fun _ => (steady_uint _).forward.bind fun _ => Forward.pure _
  · exact Forward.throw _

/-- A nested datatype starts later, with fewer bytes left. -/
theorem Nested.later {cursor inner : Cursor} (nested : Nested cursor inner) :
    Ahead cursor inner ∧ inner.remaining < cursor.remaining := by
  have after : ∀ {header start}, parseHeader cursor = (.ok header, start) → Ahead start inner →
      Ahead cursor inner ∧ inner.remaining < cursor.remaining := by
    intro header start found rest
    have ahead := steady_header.forward cursor
    rw [found] at ahead
    exact ⟨Ahead.trans _ _ _ ahead rest, Nat.lt_of_le_of_lt rest.remaining_le (remaining_of_header found)⟩
  cases nested with
  | member reaches =>
    rename_i version rank
    obtain ⟨bitfield, size, start, turn, members, here, header, -, before, reached⟩ := reaches.reaches
    have first := (forward_member forward_at version size).times turn start
    have second := forward_memberPrefix version size here
    rw [before] at first
    rw [reached] at second
    exact after header (Ahead.trans _ _ _ first second)
  | enumeration header => exact after header (Ahead.refl _)
  | variableLength header codes =>
    rename_i version bitfield size start
    have prefixed := (steady_vlenPrefix bitfield).forward start
    rw [codes] at prefixed
    exact after header prefixed
  | array header shape =>
    rename_i version bitfield size start dims
    have shaped := (steady_arrayDims version).forward start
    rw [shape] at shaped
    exact after header shaped

/-- A datatype panics exactly when it meets a member of more than four dimensions. -/
theorem panics_iff : ∀ {cursor : Cursor}, cursor.InBounds →
    (parseAt.Panics cursor ↔ MeetsOverlong cursor) := by
  intro cursor within
  constructor
  · induction left : cursor.remaining using Nat.strong_induction_on generalizing cursor with
    | _ n ih =>
      intro panics
      rcases (panics_step within).mp panics with here | ⟨inner, nested, panics⟩
      · exact ⟨cursor, .refl, here⟩
      · obtain ⟨ahead, fewer⟩ := nested.later
        obtain ⟨last, reached, overlong⟩ := ih _ (left ▸ fewer) (ahead.inBounds within) rfl panics
        exact ⟨last, .head nested reached, overlong⟩
  · rintro ⟨last, reached, overlong⟩
    induction reached using Relation.ReflTransGen.head_induction_on with
    | refl => exact (panics_step within).mpr (.inl overlong)
    | head nested _ ih =>
      exact (panics_step within).mpr (.inr ⟨_, nested, ih (nested.later.1.inBounds within)⟩)

end Datatype

end DatatypePanics

section Others

variable {sizes : Sizes}

theorem Sizes.Valid.product_lt (valid : sizes.Valid) {rank : Nat} (small : rank < 256 ^ 1) :
    rank * sizes.length < wordSize := by
  have narrow := valid.length_le
  have bound : rank * sizes.length ≤ 256 * 8 := Nat.mul_le_mul (by omega) narrow
  unfold wordSize
  omega

namespace Dataspace

theorem steady_dims (sizes : Sizes) (rank : Nat) : Steady (readDims sizes rank) :=
  (steady_length sizes).times rank

theorem steady_maxDims (sizes : Sizes) (present : Bool) (rank : Nat) :
    Steady (readMaxDims sizes present rank) := by
  unfold readMaxDims
  exact Steady.ite ((steady_dims sizes rank).bind fun _ => Steady.pure _) (Steady.pure none)

theorem steady_V1 (valid : sizes.Valid) : Steady (parseV1 sizes) := by
  refine steady_u8.bind_yields yields_u8 (fun rank => ?_) fun rank small => ?_
  · refine steady_u8.forward.bind fun flags => (steady_skip 1).forward.bind fun _ => ?_
    refine (steady_skip 4).forward.bind fun _ => (steady_dims sizes rank).forward.bind fun dims => ?_
    refine (steady_maxDims sizes _ rank).forward.bind fun maxDims => ?_
    exact (forward_skipEach _ _ _).bind fun _ => Forward.pure _
  · refine steady_u8.bind fun flags => (steady_skip 1).bind fun _ => (steady_skip 4).bind fun _ => ?_
    refine (steady_dims sizes rank).bind fun dims => (steady_maxDims sizes _ rank).bind fun maxDims => ?_
    exact (steady_skipEach _ (valid.product_lt small)).bind fun _ => Steady.pure _

theorem kindOf_safe (code : Nat) (why : Panic) : kindOf code ≠ .panic why := by
  unfold kindOf
  split <;> simp

theorem steady_V2 (sizes : Sizes) : Steady (parseV2 sizes) := by
  refine steady_u8.bind fun rank => steady_u8.bind fun flags => steady_u8.bind fun code => ?_
  refine (Steady.lift (kindOf_safe code)).bind fun kind => (steady_dims sizes rank).bind fun dims => ?_
  exact (steady_maxDims sizes _ rank).bind fun maxDims => Steady.pure _

theorem steady_at (valid : sizes.Valid) : Steady (parseAt sizes) := by
  refine steady_u8.bind fun version => ?_
  split
  · exact steady_V1 valid
  · exact steady_V2 sizes
  · exact Steady.throw _

end Dataspace

namespace Layout

variable (sizes : Sizes)

theorem steady_chunkShape {entry : Parse Nat} (steady : Steady entry) {dimensionality : Nat}
    (some_ : dimensionality ≠ 0) : Steady (chunkShape entry dimensionality) := by
  unfold chunkShape
  rw [Build.sub_of_le _ (by omega)]
  refine (Steady.pure (dimensionality - 1)).bind fun rank => (steady.times rank).bind fun chunkDims => ?_
  exact steady.bind fun elementSize => Steady.pure _

theorem steady_compact {width : Parse Nat} (steady : Steady width) : Steady (parseCompact width) :=
  steady.bind fun size => (steady_take size).bind fun _ => Steady.pure _

theorem steady_contiguous : Steady (parseContiguous sizes) :=
  (steady_address sizes).bind fun _ => (steady_length sizes).bind fun _ => Steady.pure _

theorem steady_V1V2 : Steady (parseV1V2 sizes) := by
  refine steady_u8.bind fun dimensionality => steady_u8.bind fun class_ => (steady_skip 5).bind fun _ => ?_
  dsimp only
  split
  · exact (steady_u32.times _).bind fun _ => steady_compact steady_u32
  · exact (steady_address sizes).bind fun _ => (steady_u32.times _).bind fun _ => Steady.pure _
  · refine (steady_address sizes).bind fun address => ?_
    split
    · exact Steady.throw _
    · next some_ => exact (steady_chunkShape steady_u32 some_).bind fun _ => Steady.pure _
  · exact Steady.throw _

theorem steady_V3 : Steady (parseV3 sizes) := by
  refine steady_u8.bind fun class_ => ?_
  split
  · exact steady_compact steady_u16
  · exact steady_contiguous sizes
  · refine steady_u8.bind fun dimensionality => (steady_address sizes).bind fun address => ?_
    split
    · exact Steady.throw _
    · next some_ => exact (steady_chunkShape steady_u32 some_).bind fun _ => Steady.pure _
  · exact Steady.throw _

theorem steady_index (flags indexType : Nat) : Steady (parseIndex sizes flags indexType) := by
  unfold parseIndex
  split
  · unfold parseSingleChunk
    exact Steady.ite ((steady_length sizes).bind fun _ => steady_u32.bind fun _ => Steady.pure _)
      (Steady.pure _)
  · exact Steady.pure _
  · exact steady_u8.bind fun _ => Steady.pure _
  · exact steady_u8.bind fun _ => steady_u8.bind fun _ => steady_u8.bind fun _ => steady_u8.bind fun _ =>
      steady_u8.bind fun _ => Steady.pure _
  · exact steady_u32.bind fun _ => steady_u8.bind fun _ => steady_u8.bind fun _ => Steady.pure _
  · exact Steady.throw _

theorem steady_V4 : Steady (parseV4 sizes) := by
  refine steady_u8.bind fun class_ => ?_
  split
  · exact steady_compact steady_u16
  · exact steady_contiguous sizes
  · refine steady_u8.bind fun flags => steady_u8.bind fun dimensionality => ?_
    split
    · exact Steady.throw _
    · next some_ =>
      refine steady_u8.bind fun width => ?_
      have entry : Steady (entryOf width) := (steady_uint width).bind fun _ => Steady.pure _
      refine (steady_chunkShape entry some_).bind fun shape => steady_u8.bind fun indexType => ?_
      exact (steady_index sizes _ _).bind fun _ => (steady_address sizes).bind fun _ => Steady.pure _
  · exact Steady.throw _

theorem steady_at : Steady (parseAt sizes) := by
  refine steady_u8.bind fun version => ?_
  split
  · exact steady_V1V2 sizes
  · exact steady_V1V2 sizes
  · exact steady_V3 sizes
  · exact steady_V4 sizes
  · exact Steady.throw _

end Layout

namespace FillValue

theorem steady_value : Steady parseValue := by
  refine steady_left.bind fun left => Steady.ite (Steady.pure _) (steady_u32.bind fun size => ?_)
  exact steady_left.bind fun left => Steady.ite (Steady.pure _) ((steady_take size).bind fun _ => Steady.pure _)

theorem steady_at : Steady parseAt := by
  refine steady_u8.bind fun version => ?_
  split
  · refine (steady_skip 1).bind fun _ => (steady_skip 1).bind fun _ => steady_u8.bind fun _ => ?_
    exact Steady.ite steady_value (Steady.pure _)
  · refine (steady_skip 1).bind fun _ => (steady_skip 1).bind fun _ => steady_u8.bind fun _ => ?_
    exact Steady.ite steady_value (Steady.pure _)
  · exact steady_u8.bind fun _ => Steady.ite steady_value (Steady.pure _)
  · exact Steady.throw _

end FillValue

section Names

/-- The multiple of eight after a short length is a word. -/
theorem pad8_eq {n : Nat} (small : n < 256 ^ 2) : product ((n + 7) / 8) 8 = pure ((n + 7) / 8 * 8) := by
  refine product_of_lt ?_
  unfold wordSize
  omega

/-- A name cut out of the block it was read from, at an end inside the block. -/
theorem steady_cut {padded : Nat} {stop : Bytes → Nat} (inside : ∀ raw : Bytes, raw.length = padded →
    stop raw ≤ raw.length) : Steady (do
      let raw ← Cursor.take padded
      if stop raw ≤ raw.length then pure (fromUtf8Lossy (raw.take (stop raw)))
      else Session.lift (.panic .index)) := by
  refine (steady_take padded).bind_yields (yields_take padded) (fun raw => ?_) fun raw length => ?_
  · exact Forward.ite (Forward.pure _) (Forward.lift _)
  · rw [if_pos (inside raw length)]
    exact Steady.pure _

end Names

namespace FilterPipeline

/-- The declared end of a name lies in the block it was padded to. -/
theorem steady_nameV1 {nameLen : Nat} (small : nameLen < 256 ^ 2) : Steady (nameV1 nameLen) := by
  unfold nameV1 pad8
  rw [pad8_eq small, pure_bind]
  refine Steady.ite (steady_cut fun raw length => ?_) (Steady.pure _)
  split
  · omega
  · exact untilNul_length_le raw

theorem forward_nameV1 (nameLen : Nat) : Forward (nameV1 nameLen) := by
  refine Forward.ite ?_ (Forward.pure _)
  refine (forward_product _ _).bind fun padded => (steady_take padded).forward.bind fun raw => ?_
  exact Forward.ite (Forward.pure _) (Forward.lift _)

theorem steady_filterV1 : Steady parseFilterV1 := by
  have tail : ∀ nClient, Steady (Format.times Cursor.u32 nClient) := fun nClient => steady_u32.times nClient
  refine steady_u16.bind fun id => steady_u16.bind_yields yields_u16 (fun nameLen => ?_) fun nameLen small => ?_
  · refine steady_u16.forward.bind fun flags => steady_u16.forward.bind fun nClient => ?_
    refine (forward_nameV1 nameLen).bind fun name => (tail nClient).forward.bind fun clientData => ?_
    exact (steady_skipIf _ _).forward.bind fun _ => Forward.pure _
  · refine steady_u16.bind fun flags => steady_u16.bind fun nClient => ?_
    refine (steady_nameV1 small).bind fun name => (tail nClient).bind fun clientData => ?_
    exact (steady_skipIf _ _).bind fun _ => Steady.pure _

theorem steady_filterV2 : Steady parseFilterV2 := by
  refine steady_u16.bind fun id => ?_
  refine (show Steady (nameLength id) from Steady.ite (Steady.pure 0) steady_u16).bind fun nameLen => ?_
  refine steady_u16.bind fun flags => steady_u16.bind fun nClient => ?_
  refine (show Steady (nameV2 nameLen) from ?_).bind fun name => ?_
  · exact Steady.ite ((steady_take nameLen).bind fun _ => Steady.pure _) (Steady.pure _)
  · exact (steady_u32.times nClient).bind fun _ => Steady.pure _

theorem steady_at : Steady parseAt := by
  refine steady_u8.bind fun version => steady_u8.bind fun count => ?_
  split
  · exact (steady_skip 6).bind fun _ => (steady_filterV1.times count).bind fun _ => Steady.pure _
  · exact (steady_filterV2.times count).bind fun _ => Steady.pure _
  · exact Steady.throw _

end FilterPipeline

theorem Link.steady_optional {field : Parse Nat} (steady : Steady field) (present : Bool) :
    Steady (Link.optional present field) := by
  unfold Link.optional
  exact Steady.ite (steady.bind fun _ => Steady.pure _) (Steady.pure _)

theorem Link.steady_raw : Steady Link.parseRaw := steady_u16.bind steady_take

theorem Link.steady_target (sizes : Sizes) (linkType : Nat) : Steady (Link.parseTarget sizes linkType) := by
  unfold Link.parseTarget
  split
  · exact (steady_addressRequired sizes _).bind fun _ => Steady.pure _
  · exact Link.steady_raw.bind fun _ => Steady.pure _
  · exact Link.steady_raw.bind fun _ => Steady.pure _
  · exact Link.steady_raw.bind fun _ => Steady.pure _

theorem Link.steady_at (sizes : Sizes) : Steady (Link.parseAt sizes) := by
  refine steady_u8.bind fun version => Steady.ite (Steady.throw _) (steady_u8.bind fun flags => ?_)
  refine (Link.steady_optional steady_u8 _).bind fun linkType => ?_
  refine (Link.steady_optional steady_u64 _).bind fun creationOrder => (steady_skipIf _ _).bind fun _ => ?_
  refine (steady_uint _).bind fun nameLen => (steady_take nameLen).bind fun rawName => ?_
  exact (Link.steady_target sizes _).bind fun _ => Steady.pure _

theorem steady_optionalAddress (sizes : Sizes) (present : Bool) : Steady (optionalAddress sizes present) :=
  Steady.ite (steady_address sizes) (Steady.pure none)

theorem LinkInfo.steady_at (sizes : Sizes) : Steady (LinkInfo.parseAt sizes) := by
  refine steady_u8.bind fun version => Steady.ite (Steady.throw _) (steady_u8.bind fun flags => ?_)
  refine (Link.steady_optional steady_u64 _).bind fun _ => (steady_address sizes).bind fun _ => ?_
  exact (steady_address sizes).bind fun _ => (steady_optionalAddress sizes _).bind fun _ => Steady.pure _

theorem AttributeInfo.steady_at (sizes : Sizes) : Steady (AttributeInfo.parseAt sizes) := by
  refine steady_u8.bind fun version => Steady.ite (Steady.throw _) (steady_u8.bind fun flags => ?_)
  refine (steady_skipIf _ _).bind fun _ => (steady_address sizes).bind fun _ => ?_
  exact (steady_address sizes).bind fun _ => (steady_optionalAddress sizes _).bind fun _ => Steady.pure _

end Others

section AttributePanics

namespace Attribute

theorem steady_name (size padded : Nat) : Steady (readName size padded) := by
  refine steady_cut fun raw _ => ?_
  split
  · exact Nat.min_le_right _ _
  · exact (untilNul_length_le _).trans (List.take_sublist size raw).length_le

theorem forward_pad8 (n : Nat) : Forward (pad8 n) := forward_product _ _

theorem steady_sizesV1 : Steady sizesV1 := by
  refine (steady_skip 1).bind fun _ => ?_
  refine steady_u16.bind_yields yields_u16 (fun nameSize => ?_) fun nameSize name => ?_
  · refine steady_u16.forward.bind fun datatypeSize => steady_u16.forward.bind fun dataspaceSize => ?_
    refine (forward_pad8 _).bind fun _ => (forward_pad8 _).bind fun _ => (forward_pad8 _).bind fun _ => ?_
    exact Forward.pure _
  · refine steady_u16.bind_yields yields_u16 (fun datatypeSize => ?_) fun datatypeSize datatype => ?_
    · refine steady_u16.forward.bind fun dataspaceSize => (forward_pad8 _).bind fun _ => ?_
      exact (forward_pad8 _).bind fun _ => (forward_pad8 _).bind fun _ => Forward.pure _
    · refine steady_u16.bind_yields yields_u16 (fun dataspaceSize => ?_) fun dataspaceSize dataspace => ?_
      · exact (forward_pad8 _).bind fun _ => (forward_pad8 _).bind fun _ => (forward_pad8 _).bind fun _ =>
          Forward.pure _
      · unfold pad8
        rw [pad8_eq name, pad8_eq datatype, pad8_eq dataspace]
        exact Steady.pure _

theorem steady_blockSizes : Steady blockSizes := by
  have recent : ∀ version, Steady (sizesV2V3 version) := by
    intro version
    refine steady_u8.bind fun flags => steady_u16.bind fun _ => steady_u16.bind fun _ => ?_
    refine steady_u16.bind fun _ => Steady.ite (Steady.throw _) ?_
    exact (steady_skipIf _ _).bind fun _ => Steady.pure _
  refine steady_u8.bind fun version => ?_
  split
  · exact steady_sizesV1
  · exact recent _
  · exact recent _
  · exact Steady.throw _

theorem steady_datatypeBlock (nameSize paddedName datatypeSize : Nat) :
    Steady (datatypeBlock nameSize paddedName datatypeSize) :=
  (steady_name nameSize paddedName).bind fun _ => (steady_take datatypeSize).bind fun _ => Steady.pure _

theorem steady_value (datatype : Datatype) (dataspace : Dataspace) (extent : ValueExtent) :
    Steady (takeValue datatype dataspace extent) := by
  unfold takeValue
  cases extent with
  | rest => exact steady_left.bind steady_take
  | computed =>
    refine (Steady.lift fun why => ?_).bind steady_take
    cases checkedMul dataspace.elementCount datatype.size <;> simp [Outcome.ofOption]

/-- The block with the datatype of the attribute at a cursor meets a member of
more than four dimensions. -/
def MeetsOverlong (cursor : Cursor) : Prop :=
  ∃ nameSize paddedName datatypeSize dataspaceSize start name block inner,
    blockSizes cursor = (.ok (nameSize, paddedName, datatypeSize, dataspaceSize), start) ∧
      datatypeBlock nameSize paddedName datatypeSize start = (.ok (name, block), inner) ∧
      Datatype.MeetsOverlong (Cursor.start block)

/-- An attribute panics exactly where its datatype does. -/
theorem panics_iff {sizes : Sizes} (valid : sizes.Valid) (extent : ValueExtent) {cursor : Cursor}
    (within : cursor.InBounds) : (read sizes extent).Panics cursor ↔ MeetsOverlong cursor := by
  have parsed : ∀ block, (∃ why, Datatype.parse block = .panic why) ↔
      Datatype.MeetsOverlong (Cursor.start block) := fun block =>
    @Datatype.panics_iff (Cursor.start block) (Nat.zero_le _)
  unfold read
  rw [steady_blockSizes.panics_bind within]
  constructor
  · rintro ⟨⟨nameSize, paddedName, datatypeSize, dataspaceSize⟩, start, counted, inside, later⟩
    obtain ⟨⟨name, block⟩, inner, cut, room, later⟩ :=
      ((steady_datatypeBlock _ _ _).panics_bind inside).mp later
    refine ⟨_, _, _, _, start, name, block, inner, counted, cut, ?_⟩
    rcases Session.panics_bind.mp later with here | ⟨datatype, after, found, rest⟩
    · exact (parsed block).mp here
    · obtain ⟨-, rfl⟩ := Session.lift_eq_ok.mp found
      have steady : Steady (do
          let block ← Cursor.take dataspaceSize
          let dataspace ← Session.lift (Dataspace.parse sizes block)
          let data ← takeValue datatype dataspace extent
          pure { name, datatype, dataspace, data } : Parse Attribute) := by
        refine (steady_take _).bind fun block => (Steady.lift fun why panics => ?_).bind fun dataspace => ?_
        · exact (Dataspace.steady_at valid).safe (Cursor.start block) (Nat.zero_le _) ⟨why, panics⟩
        · exact (steady_value _ _ extent).bind fun _ => Steady.pure _
      exact absurd rest (steady.safe _ room)
  · rintro ⟨nameSize, paddedName, datatypeSize, dataspaceSize, start, name, block, inner, counted, cut, meets⟩
    have ahead := steady_blockSizes.forward cursor
    rw [counted] at ahead
    have inside := ahead.inBounds within
    refine ⟨_, start, counted, inside, Session.panics_bind.mpr (.inr ⟨_, inner, cut, ?_⟩)⟩
    exact Session.panics_bind.mpr (.inl ((parsed block).mpr meets))

end Attribute

end AttributePanics

section Claim

/-- A version 1 compound whose one member, named `a`, is a four-byte integer in an
inline array of some rank. -/
def inlineMember (rank : UInt8) : Bytes :=
  [0x16, 1, 0, 0, 4, 0, 0, 0] ++ ([0x61, 0, 0, 0, 0, 0, 0, 0, 0, 0, 0, 0, rank] ++
    (List.replicate 27 0 ++ [0x10, 0, 0, 0, 4, 0, 0, 0, 0, 0, 32, 0]))

/-- No message parser panics, at any cursor over any bytes, except a datatype
parser that meets a version 1 member of more than four dimensions. -/
theorem messages_panic_iff {sizes : Sizes} (valid : sizes.Valid) {cursor : Cursor} (within : cursor.InBounds) :
    (Datatype.parseAt.Panics cursor ↔ Datatype.MeetsOverlong cursor) ∧
    (∀ extent, (Attribute.read sizes extent).Panics cursor ↔ Attribute.MeetsOverlong cursor) ∧
    ¬ (Dataspace.parseAt sizes).Panics cursor ∧
    ¬ (Layout.parseAt sizes).Panics cursor ∧
    ¬ FillValue.parseAt.Panics cursor ∧
    ¬ FillValue.parseValue.Panics cursor ∧
    ¬ FilterPipeline.parseAt.Panics cursor ∧
    ¬ (Link.parseAt sizes).Panics cursor ∧
    ¬ (LinkInfo.parseAt sizes).Panics cursor ∧
    ¬ (AttributeInfo.parseAt sizes).Panics cursor :=
  ⟨Datatype.panics_iff within, fun extent => Attribute.panics_iff valid extent within,
    (Dataspace.steady_at valid).safe cursor within, (Layout.steady_at sizes).safe cursor within,
    FillValue.steady_at.safe cursor within, FillValue.steady_value.safe cursor within,
    FilterPipeline.steady_at.safe cursor within, (Link.steady_at sizes).safe cursor within,
    (LinkInfo.steady_at sizes).safe cursor within, (AttributeInfo.steady_at sizes).safe cursor within⟩

/-- Four dimensions fit the array. -/
theorem inlineMember_four_fits : ¬ Datatype.MeetsOverlong (Cursor.start (inlineMember 4)) := by
  have within : (Cursor.start (inlineMember 4)).InBounds := Nat.zero_le _
  have parsed : Datatype.size <$> Datatype.parse (inlineMember 4) = .ok 4 := by decide +kernel
  rw [← (@messages_panic_iff ⟨8, 8⟩ ⟨by decide, by decide⟩ _ within).1]
  rintro ⟨why, panics⟩
  rw [show Datatype.parse (inlineMember 4) = .panic why from panics] at parsed
  cases parsed

/-- Five dimensions are sliced out of an array of four. -/
theorem parse_inlineMember_panics : Datatype.parse (inlineMember 5) = .panic .index :=
  Outcome.map_eq_panic.mp (show Datatype.size <$> _ = _ by decide +kernel)

end Claim

end Oxcdf
