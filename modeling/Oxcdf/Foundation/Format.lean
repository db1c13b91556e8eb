import Mathlib.Data.Nat.Basic
import Oxcdf.Foundation.Buffer
import Oxcdf.Foundation.Session

/-! Reading a format from a position in a sequence of symbols.

A reader takes symbols at a position and moves it. `Reads` says that a reader
turns one piece of code into one value wherever that code stands, and moves past
it; readers are then put together as their codes are.
-/

set_option autoImplicit false

namespace Foundation.Format

open Foundation.Buffer

structure Input (α : Type) where
  buf : List α
  pos : Nat
  deriving DecidableEq, Repr

variable {α ε β γ : Type}

/-- Read as many values as asked for, one after the other. -/
def times (read : Session (Input α) ε β) : Nat → Session (Input α) ε (List β)
  | 0 => pure []
  | count + 1 => do
    let value ← read
    let values ← times read count
    pure (value :: values)

/-- The next symbols, or an error when fewer are left. -/
def take (short : Nat → Nat → Nat → ε) (n : Nat) : Session (Input α) ε (List α) := fun input =>
  if input.pos + n > input.buf.length then (.error (short input.pos n input.buf.length), input)
  else (.ok (slice input.buf input.pos n), { input with pos := input.pos + n })

/-- Wherever the code stands, the reader yields the value and moves past it. -/
def Reads (read : Session (Input α) ε β) (code : List α) (value : β) : Prop :=
  ∀ before after : List α,
    read ⟨before ++ code ++ after, before.length⟩ =
      (.ok value, ⟨before ++ code ++ after, before.length + code.length⟩)

theorem Reads.pure (value : β) : Reads (pure value : Session (Input α) ε β) [] value :=
  fun _ _ => rfl

theorem Reads.lift (value : β) : Reads (Session.lift (.ok value) : Session (Input α) ε β) [] value :=
  fun _ _ => rfl

/-- Readers in sequence read codes in sequence. -/
theorem Reads.bind {read : Session (Input α) ε β} {next : β → Session (Input α) ε γ}
    {code rest : List α} {value : β} {result : γ} (first : Reads read code value)
    (then_ : Reads (next value) rest result) : Reads (read >>= next) (code ++ rest) result := by
  intro before after
  have here := first before (rest ++ after)
  have later := then_ (before ++ code) after
  simp only [List.append_assoc, List.length_append] at here later ⊢
  rw [Session.bind_ok here, later, Nat.add_assoc]

/-- A reader whose last step reads nothing more. -/
theorem Reads.bind_done {read : Session (Input α) ε β} {next : β → Session (Input α) ε γ}
    {code : List α} {value : β} {result : γ} (first : Reads read code value)
    (done : ∀ input, next value input = (.ok result, input)) : Reads (read >>= next) code result := by
  intro before after
  rw [Session.bind_ok (first before after), done]

/-- What follows a reader starts where its code ends. -/
theorem Reads.step {read : Session (Input α) ε β} {code : List α} {value : β}
    (first : Reads read code value) (next : β → Session (Input α) ε γ) (before after : List α) :
    (read >>= next) ⟨before ++ (code ++ after), before.length⟩ =
      next value ⟨before ++ code ++ after, (before ++ code).length⟩ := by
  have here := first before after
  rw [List.append_assoc] at here
  rw [Session.bind_ok here, List.append_assoc, List.length_append]

theorem Reads.bind_pure {read : Session (Input α) ε β} {code : List α} {value : β} (f : β → γ)
    (first : Reads read code value) : Reads (read >>= fun a => Pure.pure (f a)) code (f value) :=
  first.bind_done fun _ => rfl

theorem Reads.bind_lift {outcome : Outcome ε β} {next : β → Session (Input α) ε γ} {code : List α}
    {value : β} {result : γ} (found : outcome = .ok value) (then_ : Reads (next value) code result) :
    Reads (Session.lift outcome >>= next) code result := by
  subst found
  exact then_

/-- One code after the other is read as one value after the other. -/
theorem Reads.times {read : Session (Input α) ε β} {encode : γ → List α} {decode : γ → β} :
    ∀ {items : List γ}, (∀ item ∈ items, Reads read (encode item) (decode item)) →
      Reads (times read items.length) (items.flatMap encode) (items.map decode)
  | [], _ => Reads.pure []
  | item :: items, each => by
    rw [List.flatMap_cons, List.map_cons, List.length_cons, Format.times]
    refine (each item (by simp)).bind ?_
    have rest : Reads (Format.times read items.length) (items.flatMap encode) (items.map decode) :=
      Reads.times fun later member => each later (by simp [member])
    exact rest.bind_pure (decode item :: ·)

theorem yields_times {read : Session (Input α) ε β} {property : β → Prop} (each : read.Yields property) :
    ∀ count : Nat, (times read count).Yields fun values => ∀ value ∈ values, property value
  | 0 => Session.Yields.pure (by simp)
  | count + 1 => by
    refine each.bind fun value holds => (yields_times each count).bind fun values rest => ?_
    refine Session.Yields.pure fun other member => ?_
    rcases List.mem_cons.mp member with rfl | member
    · exact holds
    · exact rest other member

theorem times_length {read : Session (Input α) ε β} : ∀ {count : Nat} {input after : Input α} {values : List β},
    times read count input = (.ok values, after) → values.length = count
  | 0, _, _, _, found => by
    cases found
    rfl
  | count + 1, _, _, _, found => by
    obtain ⟨value, middle, -, later⟩ := Session.bind_eq_ok.mp found
    obtain ⟨values, last, rest, done⟩ := Session.bind_eq_ok.mp later
    cases done
    rw [List.length_cons, times_length rest]

theorem moves_times {relation : Input α → Input α → Prop} (refl : ∀ a, relation a a)
    (trans : ∀ a b c, relation a b → relation b c → relation a c) {read : Session (Input α) ε β}
    (each : read.Moves relation) : ∀ count : Nat, (times read count).Moves relation
  | 0 => refl
  | count + 1 =>
    each.bind trans fun _ => (moves_times refl trans each count).bind trans fun _ => refl

theorem keeps_times {property : Input α → Prop} {read : Session (Input α) ε β} (each : read.Keeps property) :
    ∀ count : Nat, (times read count).Keeps property
  | 0 => Session.Keeps.pure []
  | count + 1 => each.bind fun _ => (keeps_times each count).bind fun _ => Session.Keeps.pure _

theorem agrees_times {property : Input α → Prop} {first second : Session (Input α) ε β}
    (same : Session.Agrees property first second) (keeps : first.Keeps property) :
    ∀ count : Nat, Session.Agrees property (times first count) (times second count)
  | 0 => Session.Agrees.refl _ _
  | count + 1 => same.bind keeps fun _ =>
    (agrees_times same keeps count).bind (keeps_times keeps count) fun _ => Session.Agrees.refl _ _

/-- A repeated reader panics in one of its turns, after values from those before. -/
theorem panics_times {read : Session (Input α) ε β} {count : Nat} {input : Input α} :
    (times read count).Panics input ↔
      ∃ turn < count, ∃ values middle, times read turn input = (.ok values, middle) ∧ read.Panics middle := by
  induction count generalizing input with
  | zero => simp [times, Session.not_panics_pure]
  | succ count ih =>
    rw [times, Session.panics_bind]
    constructor
    · rintro (here | ⟨value, after, found, later⟩)
      · exact ⟨0, Nat.succ_pos _, [], input, rfl, here⟩
      · rw [Session.panics_bind] at later
        rcases later with later | ⟨values, last, _, impossible⟩
        · obtain ⟨turn, small, values, middle, before, panics⟩ := ih.mp later
          refine ⟨turn + 1, Nat.succ_lt_succ small, value :: values, middle, ?_, panics⟩
          rw [times, Session.bind_ok found, Session.bind_ok before]
          rfl
        · exact absurd impossible (Session.not_panics_pure _ _)
    · rintro ⟨turn, small, values, middle, before, panics⟩
      cases turn with
      | zero =>
        obtain rfl : input = middle := congrArg Prod.snd before
        exact .inl panics
      | succ turn =>
        right
        obtain ⟨value, after, found, later⟩ := Session.bind_eq_ok.mp before
        obtain ⟨others, last, rest, same⟩ := Session.bind_eq_ok.mp later
        cases same
        exact ⟨value, after, found, Session.panics_bind.mpr
          (.inl (ih.mpr ⟨turn, Nat.lt_of_succ_lt_succ small, others, middle, rest, panics⟩))⟩

theorem Reads.take (short : Nat → Nat → Nat → ε) (code : List α) :
    Reads (take short code.length) code code := by
  intro before after
  have room : ¬ before.length + code.length > (before ++ code ++ after).length := by
    simp only [List.length_append]
    omega
  have taken : slice (before ++ code ++ after) before.length code.length = code := by
    simp [slice]
  rw [Format.take, if_neg room]
  simp only [taken]

/-- Unsigned integers in positional notation, most significant byte first. -/
def bigEndian : Nat → Nat → List UInt8
  | 0, _ => []
  | width + 1, n => bigEndian width (n / 256) ++ [UInt8.ofNat n]

def ofBigEndian (bytes : List UInt8) : Nat := bytes.foldl (fun value byte => value * 256 + byte.toNat) 0

/-- Unsigned integers in positional notation, least significant byte first. -/
def littleEndian : Nat → Nat → List UInt8
  | 0, _ => []
  | width + 1, n => UInt8.ofNat n :: littleEndian width (n / 256)

def ofLittleEndian : List UInt8 → Nat
  | [] => 0
  | byte :: bytes => byte.toNat + 256 * ofLittleEndian bytes

@[simp] theorem bigEndian_length (width n : Nat) : (bigEndian width n).length = width := by
  induction width generalizing n with
  | zero => rfl
  | succ width ih => simp [bigEndian, ih]

@[simp] theorem littleEndian_length (width n : Nat) : (littleEndian width n).length = width := by
  induction width generalizing n with
  | zero => rfl
  | succ width ih => simp [littleEndian, ih]

/-- A wide number is its high part, then its low part. -/
theorem bigEndian_add (high low n : Nat) :
    bigEndian (high + low) n = bigEndian high (n / 256 ^ low) ++ bigEndian low n := by
  induction low generalizing n with
  | zero => simp [bigEndian]
  | succ low ih =>
    have shifted : n / 256 / 256 ^ low = n / 256 ^ (low + 1) := by
      rw [Nat.div_div_eq_div_mul, Nat.pow_succ, Nat.mul_comm]
    rw [← Nat.add_assoc, bigEndian, bigEndian, ih, shifted, List.append_assoc]

/-- What a number of that width keeps of a larger one. -/
theorem ofBigEndian_bigEndian_mod (width n : Nat) : ofBigEndian (bigEndian width n) = n % 256 ^ width := by
  induction width generalizing n with
  | zero => simp [bigEndian, ofBigEndian, Nat.mod_one]
  | succ width ih =>
    have front := ih (n / 256)
    unfold ofBigEndian at front ⊢
    rw [bigEndian, List.foldl_append, front, Nat.pow_succ', Nat.mod_mul]
    simp only [List.foldl_cons, List.foldl_nil, UInt8.toNat_ofNat']
    omega

theorem ofBigEndian_bigEndian (width : Nat) {n : Nat} (fits : n < 256 ^ width) :
    ofBigEndian (bigEndian width n) = n := by
  rw [ofBigEndian_bigEndian_mod, Nat.mod_eq_of_lt fits]

theorem ofLittleEndian_lt (bytes : List UInt8) : ofLittleEndian bytes < 256 ^ bytes.length := by
  induction bytes with
  | nil => exact Nat.one_pos
  | cons byte bytes ih =>
    have small := byte.toNat_lt
    rw [ofLittleEndian, List.length_cons, Nat.pow_succ']
    omega

theorem ofLittleEndian_littleEndian_mod (width n : Nat) :
    ofLittleEndian (littleEndian width n) = n % 256 ^ width := by
  induction width generalizing n with
  | zero => simp [littleEndian, ofLittleEndian, Nat.mod_one]
  | succ width ih =>
    rw [littleEndian, ofLittleEndian, ih (n / 256), Nat.pow_succ', Nat.mod_mul]
    simp only [UInt8.toNat_ofNat']

theorem ofLittleEndian_littleEndian (width : Nat) {n : Nat} (fits : n < 256 ^ width) :
    ofLittleEndian (littleEndian width n) = n := by
  rw [ofLittleEndian_littleEndian_mod, Nat.mod_eq_of_lt fits]

/-- A wide number is its low part, then its high part. -/
theorem littleEndian_add (low high n : Nat) :
    littleEndian (low + high) n = littleEndian low n ++ littleEndian high (n / 256 ^ low) := by
  induction low generalizing n with
  | zero => simp [littleEndian]
  | succ low ih =>
    have shifted : n / 256 / 256 ^ low = n / 256 ^ (low + 1) := by
      rw [Nat.div_div_eq_div_mul, Nat.pow_succ']
    rw [Nat.succ_add, littleEndian, littleEndian, ih, shifted, List.cons_append]

/-- Wherever the code stands, the reader fails with this error. -/
def Fails (read : Session (Input α) ε β) (code : List α) (e : ε) : Prop :=
  ∀ before after : List α, (read ⟨before ++ code ++ after, before.length⟩).1 = .error e

theorem Fails.bind {read : Session (Input α) ε β} {code : List α} {e : ε} (fails : Fails read code e)
    (next : β → Session (Input α) ε γ) (rest : List α) : Fails (read >>= next) (code ++ rest) e := by
  intro before after
  have here := fails before (rest ++ after)
  rw [← List.append_assoc, List.append_assoc before code rest] at here
  rw [Session.bind_error (Prod.ext here rfl)]

/-- A reader fails where a later step of it does. -/
theorem Reads.bind_fails {read : Session (Input α) ε β} {next : β → Session (Input α) ε γ}
    {code rest : List α} {value : β} {e : ε} (first : Reads read code value)
    (fails : Fails (next value) rest e) : Fails (read >>= next) (code ++ rest) e := by
  intro before after
  have here := first.step next before (rest ++ after)
  have later := fails (before ++ code) after
  rw [List.append_assoc (before ++ code)] at later
  rw [List.append_assoc before, List.append_assoc code, here]
  exact later

end Foundation.Format
