import Oxcdf.Cursor.Steady
import Oxcdf.Message.Datatype

/-! The recursion of the datatype parser. It only moves forward and takes eight
bytes before it recurs, so the depth it is given is never reached and the parser
satisfies its own equation.
-/

set_option autoImplicit false

namespace Oxcdf.Datatype

open Foundation Foundation.Format Cursor

section Leaves

theorem steady_fields (classAndVersion : Nat) : Steady (parseFields classAndVersion) := by
  refine Steady.ite (Steady.throw _) ?_
  refine steady_u8.bind fun _ => steady_u8.bind fun _ => steady_u8.bind fun _ => ?_
  exact steady_u32.bind fun _ => Steady.pure _

theorem steady_header : Steady parseHeader := steady_u8.bind steady_fields

theorem steady_fixedPoint (bitfield : Nat) : Steady (parseFixedPoint bitfield) :=
  steady_u16.bind fun _ => steady_u16.bind fun _ => Steady.pure _

theorem floatOrder_safe (bitfield : Nat) (why : Panic) : floatOrder bitfield ≠ .panic why := by
  unfold floatOrder
  split <;> simp

theorem stringPad_safe (code : Nat) (why : Panic) : stringPad code ≠ .panic why := by
  unfold stringPad
  split <;> simp

theorem charSet_safe (code : Nat) (why : Panic) : charSet code ≠ .panic why := by
  unfold charSet
  split <;> simp

theorem vlenKind_safe (code : Nat) (why : Panic) : vlenKind code ≠ .panic why := by
  unfold vlenKind
  split <;> simp

theorem steady_floatingPoint (bitfield : Nat) : Steady (parseFloatingPoint bitfield) := by
  refine (Steady.lift (floatOrder_safe _)).bind fun order => ?_
  refine steady_u16.bind fun _ => steady_u16.bind fun _ => steady_u8.bind fun _ => ?_
  refine steady_u8.bind fun _ => steady_u8.bind fun _ => steady_u8.bind fun _ => ?_
  exact steady_u32.bind fun _ => Steady.pure _

theorem steady_string (bitfield : Nat) : Steady (parseString bitfield) :=
  (Steady.lift (stringPad_safe _)).bind fun _ => (Steady.lift (charSet_safe _)).bind fun _ => Steady.pure _

theorem steady_opaqueTag (bitfield : Nat) : Steady (parseOpaque bitfield) :=
  (steady_take _).bind fun _ => Steady.pure _

theorem steady_memberHeaderV1 : Steady memberHeaderV1 := by
  refine (steady_cstringPadded 8).bind fun _ => steady_u32.bind fun _ => steady_u8.bind fun _ => ?_
  refine (steady_skip 3).bind fun _ => (steady_skip 4).bind fun _ => (steady_skip 4).bind fun _ => ?_
  exact (steady_u32.times 4).bind fun _ => Steady.pure _

theorem steady_name (version : Nat) : Steady (parseName version) :=
  Steady.ite steady_cstring (steady_cstringPadded 8)

theorem steady_arrayDims (version : Nat) : Steady (arrayDims version) := by
  refine steady_u8.bind_yields yields_u8 (fun rank => ?_) fun rank small => ?_
  · refine (steady_skipIf _ _).forward.bind fun _ => (steady_u32.forward.times rank).bind fun _ => ?_
    exact (forward_skipEach _ _ _).bind fun _ => Forward.pure _
  · refine (steady_skipIf _ _).bind fun _ => (steady_u32.times rank).bind fun _ => ?_
    refine (steady_skipEach _ ?_).bind fun _ => Steady.pure _
    unfold wordSize
    omega

end Leaves

section Nested

variable {nested other : Parse Datatype}

theorem forward_member (forward : Forward nested) (version size : Nat) :
    Forward (parseMember nested version size) := by
  unfold parseMember
  split
  · exact steady_memberHeaderV1.forward.bind fun _ => forward.bind fun _ => (Forward.lift _).bind fun _ =>
      Forward.pure _
  · exact (steady_cstringPadded 8).forward.bind fun _ => steady_u32.forward.bind fun _ => forward.bind fun _ =>
      Forward.pure _
  · exact steady_cstring.forward.bind fun _ => (steady_uint _).forward.bind fun _ => forward.bind fun _ =>
      Forward.pure _
  · exact steady_cstring.forward.bind fun _ => (steady_uint _).forward.bind fun _ => forward.bind fun _ =>
      Forward.pure _
  · exact Forward.throw _

theorem forward_class (forward : Forward nested) (version class_ bitfield size : Nat) :
    Forward (parseClass nested version class_ bitfield size) := by
  unfold parseClass
  split
  · exact (steady_fixedPoint bitfield).forward
  · exact (steady_floatingPoint bitfield).forward
  · exact (steady_string bitfield).forward
  · exact (steady_opaqueTag bitfield).forward
  · exact ((forward_member forward version size).times _).bind fun _ => Forward.pure _
  · exact Forward.pure _
  · exact forward.bind fun _ => ((steady_name version).forward.times _).bind fun _ =>
      ((steady_take _).forward.times _).bind fun _ => Forward.pure _
  · exact (Forward.lift _).bind fun _ => (Forward.lift _).bind fun _ => (Forward.lift _).bind fun _ =>
      forward.bind fun _ => Forward.pure _
  · exact (steady_arrayDims version).forward.bind fun _ => forward.bind fun _ => Forward.pure _
  · exact Forward.pure _

theorem forward_with (forward : Forward nested) : Forward (parseWith nested) :=
  steady_header.forward.bind fun _ => (forward_class forward _ _ _ _).bind fun _ => Forward.pure _

theorem forward_to : ∀ depth : Nat, Forward (parseTo depth)
  | 0 => Ahead.refl
  | depth + 1 => forward_with (forward_to depth)

theorem forward_at : Forward parseAt := fun cursor => forward_to _ cursor

/-- The header takes at least one byte, which is all the recursion needs. -/
theorem remaining_of_header {cursor after : Cursor} {header : Nat × Nat × Nat × Nat}
    (found : parseHeader cursor = (.ok header, after)) : after.remaining < cursor.remaining := by
  obtain ⟨first, middle, one, rest⟩ := Session.bind_eq_ok.mp found
  obtain ⟨bytes, taken, took, done⟩ := Session.bind_eq_ok.mp one
  obtain ⟨room, -, rfl⟩ := take_eq_ok.mp took
  cases done
  have ahead := ((steady_fields (ofLittleEndian bytes)).forward
    { cursor with pos := cursor.pos + 1 }).remaining_le
  rw [rest] at ahead
  unfold remaining at ahead ⊢
  dsimp only at ahead
  omega

end Nested

section Depth

variable {first second : Parse Datatype} {limit : Nat}

theorem agrees_member (same : Session.Agrees (fun c => c.remaining < limit) first second)
    (forward : Forward first) (version size : Nat) :
    Session.Agrees (fun c => c.remaining < limit) (parseMember first version size)
      (parseMember second version size) := by
  have within := forward.keeps limit
  unfold parseMember
  split
  · refine Session.Agrees.bind (Session.Agrees.refl _ _) (steady_memberHeaderV1.forward.keeps limit) fun _ => ?_
    exact same.bind within fun _ => Session.Agrees.refl _ _
  · refine Session.Agrees.bind (Session.Agrees.refl _ _)
      ((steady_cstringPadded 8).forward.keeps limit) fun _ => ?_
    refine Session.Agrees.bind (Session.Agrees.refl _ _) (steady_u32.forward.keeps limit) fun _ => ?_
    exact same.bind within fun _ => Session.Agrees.refl _ _
  · refine Session.Agrees.bind (Session.Agrees.refl _ _) (steady_cstring.forward.keeps limit) fun _ => ?_
    refine Session.Agrees.bind (Session.Agrees.refl _ _) ((steady_uint _).forward.keeps limit) fun _ => ?_
    exact same.bind within fun _ => Session.Agrees.refl _ _
  · refine Session.Agrees.bind (Session.Agrees.refl _ _) (steady_cstring.forward.keeps limit) fun _ => ?_
    refine Session.Agrees.bind (Session.Agrees.refl _ _) ((steady_uint _).forward.keeps limit) fun _ => ?_
    exact same.bind within fun _ => Session.Agrees.refl _ _
  · exact Session.Agrees.refl _ _

theorem agrees_class (same : Session.Agrees (fun c => c.remaining < limit) first second)
    (forward : Forward first) (version class_ bitfield size : Nat) :
    Session.Agrees (fun c => c.remaining < limit) (parseClass first version class_ bitfield size)
      (parseClass second version class_ bitfield size) := by
  have within := forward.keeps limit
  unfold parseClass
  split
  · exact Session.Agrees.refl _ _
  · exact Session.Agrees.refl _ _
  · exact Session.Agrees.refl _ _
  · exact Session.Agrees.refl _ _
  · have members := agrees_member same forward version size
    have keeps := (forward_member forward version size).keeps limit
    exact (agrees_times members keeps _).bind (keeps_times keeps _) fun _ => Session.Agrees.refl _ _
  · exact Session.Agrees.refl _ _
  · exact same.bind within fun _ => Session.Agrees.refl _ _
  · refine Session.Agrees.bind (Session.Agrees.refl _ _) ((Forward.lift _).keeps limit) fun _ => ?_
    refine Session.Agrees.bind (Session.Agrees.refl _ _) ((Forward.lift _).keeps limit) fun _ => ?_
    refine Session.Agrees.bind (Session.Agrees.refl _ _) ((Forward.lift _).keeps limit) fun _ => ?_
    exact same.bind within fun _ => Session.Agrees.refl _ _
  · refine Session.Agrees.bind (Session.Agrees.refl _ _)
      ((steady_arrayDims version).forward.keeps limit) fun _ => ?_
    exact same.bind within fun _ => Session.Agrees.refl _ _
  · exact Session.Agrees.refl _ _

/-- Any two depths beyond the bytes left parse alike. -/
theorem agrees_to : ∀ one two limit : Nat, limit ≤ one → limit ≤ two →
    Session.Agrees (fun c => c.remaining < limit) (parseTo one) (parseTo two)
  | _, _, 0, _, _ => fun _ small => absurd small (Nat.not_lt_zero _)
  | one + 1, two + 1, limit + 1, deep, deeper => by
    intro cursor small
    have same := agrees_to one two limit (Nat.le_of_succ_le_succ deep) (Nat.le_of_succ_le_succ deeper)
    unfold parseTo parseWith
    rw [Session.bind_apply, Session.bind_apply]
    rcases found : parseHeader cursor with ⟨header | e | p, after⟩
    · have fewer := remaining_of_header found
      have class_ := agrees_class same (forward_to one) header.1 header.2.1 header.2.2.1 header.2.2.2
      have keeps := (forward_class (forward_to one) header.1 header.2.1 header.2.2.1 header.2.2.2).keeps limit
      exact (class_.bind keeps fun _ => Session.Agrees.refl _ _) after (by omega)
    · rfl
    · rfl

/-- The parser of a datatype, as one that parses nested types with itself. -/
theorem parseAt_eq : parseAt = parseWith parseAt := by
  funext cursor
  unfold parseAt
  rw [parseTo]
  unfold parseWith
  rw [Session.bind_apply, Session.bind_apply]
  rcases found : parseHeader cursor with ⟨header | e | p, after⟩
  · have fewer := remaining_of_header found
    have same : Session.Agrees (fun c => c.remaining < cursor.remaining) (parseTo cursor.remaining)
        fun c => parseTo (c.remaining + 1) c := by
      intro c small
      exact agrees_to cursor.remaining (c.remaining + 1) (c.remaining + 1) (by omega) (Nat.le_refl _) c
        (Nat.lt_succ_self _)
    have forward := forward_to cursor.remaining
    have class_ := agrees_class same forward header.1 header.2.1 header.2.2.1 header.2.2.2
    have keeps := (forward_class forward header.1 header.2.1 header.2.2.1 header.2.2.2).keeps cursor.remaining
    exact (class_.bind keeps fun _ => Session.Agrees.refl _ _) after fewer
  · rfl
  · rfl

end Depth

end Oxcdf.Datatype
