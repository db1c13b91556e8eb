import Mathlib.Data.Nat.Basic
import Mathlib.Tactic.Common

/-! UTF-8 text, with each malformed part replaced by one replacement character.

A malformed part is the longest front of the bytes that starts like an encoded
character and is not completed; at least one byte.
-/

set_option autoImplicit false

namespace Foundation.Utf8

def encode (chars : List Char) : List UInt8 := chars.flatMap String.utf8EncodeChar

theorem encode_cons (c : Char) (chars : List Char) :
    encode (c :: chars) = String.utf8EncodeChar c ++ encode chars := rfl

/-- `U+FFFD`. -/
def replacement : Char := Char.ofNat 0xFFFD

/-- Whether a byte continues an encoded character. -/
def continues (byte : UInt8) : Bool := 0x80 ≤ byte && byte ≤ 0xBF

/-- Whether a second byte may follow the first byte of a character of three or
four bytes: overlong forms, surrogates and values past the last character may not. -/
def mayFollow (first second : UInt8) : Bool :=
  if first = 0xE0 then 0xA0 ≤ second && second ≤ 0xBF
  else if first = 0xED then 0x80 ≤ second && second ≤ 0x9F
  else if first = 0xF0 then 0x90 ≤ second && second ≤ 0xBF
  else if first = 0xF4 then 0x80 ≤ second && second ≤ 0x8F
  else continues second

/-- How many bytes one malformed part takes. -/
def malformedLength : List UInt8 → Nat
  | first :: second :: rest =>
    if 0xE0 ≤ first && first ≤ 0xEF && mayFollow first second then 2
    else if 0xF0 ≤ first && first ≤ 0xF4 && mayFollow first second then
      match rest with
      | third :: _ => if continues third then 3 else 2
      | [] => 2
    else 1
  | _ => 1

/-- Decode at most `fuel` characters. -/
def decodeUpTo : Nat → List UInt8 → List Char
  | 0, _ => []
  | _, [] => []
  | fuel + 1, bytes =>
    match bytes.toByteArray.utf8DecodeChar? 0 with
    | some c => c :: decodeUpTo fuel (bytes.drop c.utf8Size)
    | none => replacement :: decodeUpTo fuel (bytes.drop (malformedLength bytes))

def decodeLossy (bytes : List UInt8) : List Char := decodeUpTo bytes.length bytes

theorem decodeUpTo_encode (chars : List Char) : ∀ {fuel : Nat}, (encode chars).length ≤ fuel →
    decodeUpTo fuel (encode chars) = chars := by
  induction chars with
  | nil =>
    intro fuel _
    cases fuel <;> rfl
  | cons c chars ih =>
    intro fuel room
    have width : (String.utf8EncodeChar c).length = c.utf8Size := String.length_utf8EncodeChar c
    have positive := c.utf8Size_pos
    rw [encode_cons, List.length_append, width] at room
    obtain ⟨fuel, rfl⟩ : ∃ n, fuel = n + 1 := ⟨fuel - 1, by omega⟩
    have front : (encode (c :: chars)).toByteArray.utf8DecodeChar? 0 = some c := by
      rw [encode_cons, List.toByteArray_append]
      exact ByteArray.utf8DecodeChar?_utf8EncodeChar_append
    have rest : (encode (c :: chars)).drop c.utf8Size = encode chars := by
      rw [encode_cons, ← width, List.drop_left]
    obtain ⟨byte, bytes, here⟩ : ∃ byte bytes, encode (c :: chars) = byte :: bytes := by
      cases whole : encode (c :: chars) with
      | nil =>
        rw [encode_cons] at whole
        have := congrArg List.length whole
        rw [List.length_append, width, List.length_nil] at this
        omega
      | cons byte bytes => exact ⟨byte, bytes, rfl⟩
    rw [here] at front rest ⊢
    simp only [decodeUpTo, front, rest, ih (show (encode chars).length ≤ fuel by omega)]

theorem decodeLossy_encode (chars : List Char) : decodeLossy (encode chars) = chars :=
  decodeUpTo_encode chars (le_refl _)

/-- A byte of a character of several bytes has its top bit set. -/
theorem ofNat_ne_of_lt {byte : UInt8} (single : byte < 0x80) {n : Nat} (low : 0x80 ≤ n) (high : n < 0x100) :
    byte ≠ UInt8.ofNat n := by
  intro same
  have values := congrArg UInt8.toNat same
  have below : byte.toNat < 0x80 := UInt8.lt_iff_toNat_lt.mp single
  rw [UInt8.toNat_ofNat', Nat.mod_eq_of_lt high] at values
  omega

/-- A byte below `0x80` stands for its own character, and for no part of another. -/
theorem mem_encodeChar {byte : UInt8} (single : byte < 0x80) {c : Char} :
    byte ∈ String.utf8EncodeChar c ↔ c.val.toNat = byte.toNat := by
  have below : byte.toNat < 0x80 := UInt8.lt_iff_toNat_lt.mp single
  unfold String.utf8EncodeChar
  dsimp only
  split
  · next small =>
    rw [List.mem_singleton, ← UInt8.toNat_inj, UInt8.toNat_ofNat', Nat.mod_eq_of_lt (by omega)]
    exact eq_comm
  · next several =>
    refine iff_of_false (fun member => ?_) (by omega)
    split at member
    · simp only [List.mem_cons, List.not_mem_nil, or_false] at member
      rcases member with same | same <;> exact ofNat_ne_of_lt single (by omega) (by omega) same
    · split at member
      · simp only [List.mem_cons, List.not_mem_nil, or_false] at member
        rcases member with same | same | same <;> exact ofNat_ne_of_lt single (by omega) (by omega) same
      · simp only [List.mem_cons, List.not_mem_nil, or_false] at member
        rcases member with same | same | same | same <;>
          exact ofNat_ne_of_lt single (by omega) (by omega) same

theorem mem_encode {byte : UInt8} (single : byte < 0x80) {chars : List Char} :
    byte ∈ encode chars ↔ ∃ c ∈ chars, c.val.toNat = byte.toNat := by
  simp only [encode, List.mem_flatMap, mem_encodeChar single]

theorem zero_mem_encode {chars : List Char} : 0 ∈ encode chars ↔ Char.ofNat 0 ∈ chars := by
  have nul (c : Char) : c.val.toNat = (0 : UInt8).toNat ↔ c = Char.ofNat 0 :=
    ⟨fun same => Char.ext (UInt32.toNat_inj.mp same), fun same => same ▸ rfl⟩
  simp only [mem_encode (show (0 : UInt8) < 0x80 by decide), nul, exists_eq_right]

theorem decodeLossy_singleton (byte : UInt8) : ∃ c, decodeLossy [byte] = [c] := by
  change ∃ c, decodeUpTo 1 [byte] = [c]
  unfold decodeUpTo
  split <;> exact ⟨_, rfl⟩

/-- No byte but the one of `U+0000` decodes to it. -/
theorem decodeLossy_singleton_ne {byte : UInt8} (set_ : byte ≠ 0) : Char.ofNat 0 ∉ decodeLossy [byte] := by
  intro member
  change Char.ofNat 0 ∈ decodeUpTo 1 [byte] at member
  unfold decodeUpTo at member
  split at member
  · next c found =>
    obtain rfl : Char.ofNat 0 = c := by simpa [decodeUpTo] using member
    obtain ⟨rest, whole⟩ := ByteArray.exists_of_utf8DecodeChar?_eq_some found
    have zero : (String.utf8EncodeChar (Char.ofNat 0)).toByteArray = [0].toByteArray := by decide
    have bytes := congrArg (fun array => array.data.toList) whole
    simp [zero] at bytes
    exact set_ bytes.1
  · change Char.ofNat 0 ∈ [replacement] at member
    revert member
    decide

def decodeApart (bytes : List UInt8) : List Char := bytes.flatMap fun byte => decodeLossy [byte]

theorem decodeApart_length (bytes : List UInt8) : (decodeApart bytes).length = bytes.length := by
  induction bytes with
  | nil => rfl
  | cons byte bytes ih =>
    obtain ⟨c, one⟩ := decodeLossy_singleton byte
    have split : decodeApart (byte :: bytes) = decodeLossy [byte] ++ decodeApart bytes := rfl
    rw [split, one, List.length_append, ih, List.length_singleton, List.length_cons, Nat.add_comm]

theorem decodeApart_append (first second : List UInt8) :
    decodeApart (first ++ second) = decodeApart first ++ decodeApart second := List.flatMap_append

theorem length_encode_le (chars : List Char) : chars.length ≤ (encode chars).length := by
  induction chars with
  | nil => exact Nat.le_refl 0
  | cons c chars ih =>
    have positive := c.utf8Size_pos
    rw [encode_cons, List.length_append, String.length_utf8EncodeChar, List.length_cons]
    omega

/-- Encoded text decodes byte by byte exactly when each character is one byte. -/
theorem decodeApart_encode_iff {chars : List Char} :
    decodeApart (encode chars) = chars ↔ ∀ c ∈ chars, c.utf8Size = 1 := by
  constructor
  · intro same
    have long := congrArg List.length same
    rw [decodeApart_length] at long
    clear same
    induction chars with
    | nil => simp
    | cons c chars ih =>
      have positive := c.utf8Size_pos
      have rest := length_encode_le chars
      rw [encode_cons, List.length_append, String.length_utf8EncodeChar, List.length_cons] at long
      intro d member
      rcases List.mem_cons.mp member with rfl | member
      · omega
      · exact ih (by omega) d member
  · intro single
    induction chars with
    | nil => rfl
    | cons c chars ih =>
      have one : encode [c] = String.utf8EncodeChar c := List.append_nil _
      obtain ⟨byte, here⟩ := List.length_eq_one_iff.mp
        ((String.length_utf8EncodeChar c).trans (single c (by simp)))
      have back := decodeLossy_encode [c]
      rw [one, here] at back
      rw [encode_cons, here, decodeApart_append, ih fun d member => single d (by simp [member])]
      change decodeLossy [byte] ++ [] ++ chars = _
      rw [back]
      rfl

theorem nul_notMem_decodeApart {bytes : List UInt8} (clean : 0 ∉ bytes) : Char.ofNat 0 ∉ decodeApart bytes := by
  simp only [decodeApart, List.mem_flatMap, not_exists, not_and]
  intro byte member
  exact decodeLossy_singleton_ne (ne_of_mem_of_not_mem member clean)

end Foundation.Utf8
