import Oxcdf.Filters.Panic

/-! blosclz streams, and what they expand to.

A stream is a list of tokens: literal runs, and copies of what has been put out before. A copy may
reach into what it is itself putting out. Its length and its distance are as many bytes as they need.
-/

set_option autoImplicit false

namespace Oxcdf.Filters

open Foundation Foundation.Buffer Foundation.Format

inductive Token where
  | literals (bytes : Bytes)
  /-- So many bytes, from so far back in the output. -/
  | copy (length distance : Nat)
  deriving DecidableEq, Repr

section Expanding

/-- Put out the byte from so far back, so many times. -/
def expandCopy (distance : Nat) : Nat → Bytes → Bytes
  | 0, out => out
  | length + 1, out => expandCopy distance length (out ++ [out.getD (out.length - distance) 0])

def expandToken (out : Bytes) : Token → Bytes
  | .literals bytes => out ++ bytes
  | .copy length distance => expandCopy distance length out

/-- The tokens one after the other. -/
def expand (out : Bytes) (tokens : List Token) : Bytes := tokens.foldl expandToken out

/-- A copy starts in the output there is. -/
def Token.Reaches (out : Bytes) : Token → Prop
  | literals _ => True
  | copy _ distance => distance ≤ out.length

end Expanding

section Encoding

/-- What is left of a length after its field: 255 as often as it goes, then the rest. -/
def extension (n : Nat) : Bytes := List.replicate (n / 255) 255 ++ [UInt8.ofNat (n % 255)]

/-- The bytes that give a length, by its field in the first byte. -/
inductive LengthCode : Nat → Bytes → Nat → Prop where
  | short {field : Nat} (low : 1 ≤ field) (high : field ≤ 6) : LengthCode field [] (field + 2)
  | long (n : Nat) : LengthCode 7 (extension n) (n + 9)

/-- The bytes that give a distance, by its high bits in the first byte. -/
inductive DistanceCode : Nat → Bytes → Nat → Prop where
  | near {high : Nat} {low : UInt8} (short : high * 2 ^ 8 + low.toNat < 0x1fff) :
    DistanceCode high [low] (high * 2 ^ 8 + low.toNat + 1)
  | far (high low : UInt8) : DistanceCode 31 [255, high, low] (0x1fff + (high.toNat * 2 ^ 8 + low.toNat) + 1)

/-- The bytes of a token. The first of a stream is a literal run, whatever else its first byte says. -/
inductive Encodes : Bool → Token → Bytes → Prop where
  | literals {first : Bool} {mark : UInt8} {bytes : Bytes} (kind : first = true ∨ mark.toNat / 2 ^ 5 = 0)
    (count : bytes.length = mark.toNat % 2 ^ 5 + 1) : Encodes first (.literals bytes) (mark :: bytes)
  | copy {mark : UInt8} {lengthBytes distanceBytes : Bytes} {length distance : Nat}
    (long : LengthCode (mark.toNat / 2 ^ 5) lengthBytes length)
    (back : DistanceCode (mark.toNat % 2 ^ 5) distanceBytes distance) :
    Encodes false (.copy length distance) (mark :: (lengthBytes ++ distanceBytes))

/-- Tokens, written one after the other behind some output. -/
inductive Stream : Bool → Bytes → List Token → Bytes → Prop where
  | nil (first : Bool) (out : Bytes) : Stream first out [] []
  | cons {first : Bool} {out bytes rest : Bytes} {token : Token} {tokens : List Token}
    (encodes : Encodes first token bytes) (reaches : token.Reaches out)
    (later : Stream false (expandToken out token) tokens rest) :
    Stream first out (token :: tokens) (bytes ++ rest)

/-- The stream ends within a token. -/
def CutOff (first : Bool) (rest : Bytes) : Prop :=
  rest ≠ [] ∧ ∃ token more, more ≠ [] ∧ Encodes first token (rest ++ more)

/-- The stream goes on with a copy from before the start of the output. -/
def ReachesBefore (first : Bool) (out rest : Bytes) : Prop :=
  ∃ token bytes later, Encodes first token bytes ∧ ¬ token.Reaches out ∧ rest = bytes ++ later

def Token.Valid : Token → Prop
  | literals bytes => 1 ≤ bytes.length ∧ bytes.length ≤ 32
  | copy length distance => 3 ≤ length ∧ 1 ≤ distance ∧ distance ≤ 8191 + 65536

def encodeLength (length : Nat) : Bytes := if length < 9 then [] else extension (length - 9)

def encodeDistance (distance : Nat) : Bytes :=
  if distance ≤ 0x1fff then [UInt8.ofNat ((distance - 1) % 2 ^ 8)]
  else 255 :: bigEndian 2 (distance - 0x2000)

def Token.encode : Token → Bytes
  | literals bytes => UInt8.ofNat (bytes.length - 1) :: bytes
  | copy length distance =>
    UInt8.ofNat (min (length - 2) 7 * 2 ^ 5 + min (distance - 1) 0x1fff / 2 ^ 8) ::
      (encodeLength length ++ encodeDistance distance)

end Encoding

section Tokens

variable {first : Bool} {token : Token} {mark : UInt8} {code later out : Bytes}

/-- The byte that is read stays as far behind the end of the output as it starts. -/
theorem copyMatch_eq {start distance : Nat} (length i : Nat) (behind : start + i + distance = out.length) :
    copyMatch start length i out = expandCopy distance length out := by
  induction length generalizing i out with
  | zero => rfl
  | succ length ih =>
    have place : out.length - distance = start + i := by omega
    rw [copyMatch, expandCopy, place]
    apply ih
    simp
    omega

theorem matchLength_replicate (k : Nat) {last : UInt8} (stops : last.toNat ≠ 255) (rest : Bytes)
    (length : Nat) :
    matchLength (List.replicate k 255 ++ last :: rest) length = .ok (length + 255 * k + last.toNat, rest) := by
  induction k generalizing length with
  | zero => simp [matchLength, stops]
  | succ k ih =>
    have full : (255 : UInt8).toNat = 255 := by decide
    rw [List.replicate_succ, List.cons_append, matchLength, if_pos full, ih, Nat.mul_succ]
    congr 2
    omega

theorem matchLength_extension (n : Nat) (rest : Bytes) (length : Nat) :
    matchLength (extension n ++ rest) length = .ok (length + n, rest) := by
  have small : n % 255 < 255 := Nat.mod_lt n (by decide)
  have byte : (UInt8.ofNat (n % 255)).toNat = n % 255 := UInt8.toNat_ofNat_of_lt' (small.trans (by decide))
  have parts := Nat.div_add_mod n 255
  rw [extension, List.append_assoc, List.singleton_append, matchLength_replicate _ (by omega), byte]
  congr 2
  omega

theorem matchLength_cut (k length : Nat) : ∃ e, matchLength (List.replicate k 255) length = .error e := by
  induction k generalizing length with
  | zero => exact ⟨_, rfl⟩
  | succ k ih => exact ih (length + 255)

/-- The length behind a first byte, with what follows. -/
theorem length_eq {field length : Nat} {bytes : Bytes} (coded : LengthCode field bytes length) (rest : Bytes) :
    field ≠ 0 ∧ ∃ total, total + 2 = length ∧
      (if field = 7 then matchLength (bytes ++ rest) 7 else .ok (field, bytes ++ rest) : Code (Nat × Bytes)) =
        .ok (total, rest) := by
  cases coded with
  | short low high =>
    have other : ¬ field = 7 := by omega
    exact ⟨by omega, field, rfl, by rw [if_neg other]; rfl⟩
  | long n =>
    refine ⟨by decide, 7 + n, by omega, ?_⟩
    rw [if_pos rfl, matchLength_extension]

theorem blosclzToken_copy {n : Nat} (copies : n / 2 ^ 5 ≠ 0) (rest out : Bytes) :
    blosclzToken false n rest out =
      (if n / 2 ^ 5 = 7 then matchLength rest 7 else .ok (n / 2 ^ 5, rest)) >>= fun found =>
        finishCopy (n % 2 ^ 5) (found.1 + 2) found.2 out :=
  blosclzToken_of_copy (by simpa using copies) rest out

theorem finishCopy_eq {high distance : Nat} {bytes : Bytes} (coded : DistanceCode high bytes distance)
    (length : Nat) (rest out : Bytes) :
    finishCopy high length (bytes ++ rest) out =
      if distance ≤ out.length then .ok (rest, expandCopy distance length out)
      else .error (.malformed "blosclz match points before the start of the block") := by
  have last (distance : Nat) : (if out.length < distance + 1 then
      .error (.malformed "blosclz match points before the start of the block")
      else .ok (rest, copyMatch (out.length - (distance + 1)) length 0 out) : Code (Bytes × Bytes)) =
      if distance + 1 ≤ out.length then .ok (rest, expandCopy (distance + 1) length out)
      else .error (.malformed "blosclz match points before the start of the block") := by
    by_cases reaches : distance + 1 ≤ out.length
    · rw [if_neg (Nat.not_lt.mpr reaches), if_pos reaches, copyMatch_eq]
      omega
    · rw [if_pos (Nat.lt_of_not_le reaches), if_neg reaches]
  cases coded with
  | @near _ low short =>
    simp only [finishCopy, List.singleton_append, if_neg (Nat.ne_of_lt short), Outcome.ok_bind]
    exact last _
  | far high low =>
    have full : 31 * 2 ^ 8 + (255 : UInt8).toNat = 0x1fff := by decide
    simp only [finishCopy, List.cons_append, List.nil_append, full, if_true, Outcome.ok_bind]
    exact last _

/-- A token that is there in full is expanded, unless it starts before the output. -/
theorem blosclzToken_eq (encodes : Encodes first token (mark :: code)) (later out : Bytes) :
    (token.Reaches out → blosclzToken first mark.toNat (code ++ later) out =
      .ok (later, expandToken out token)) ∧
      (¬ token.Reaches out → ∃ e, blosclzToken first mark.toNat (code ++ later) out = .error e) := by
  cases encodes with
  | literals kind count =>
    refine ⟨fun _ => ?_, fun before => absurd trivial before⟩
    have all : ¬ mark.toNat % 2 ^ 5 + 1 > (code ++ later).length := by
      rw [← count, List.length_append]
      omega
    rw [blosclzToken, if_pos kind]
    dsimp only
    rw [if_neg all, ← count, List.drop_left, List.take_left]
    rfl
  | @copy _ lengthBytes distanceBytes length distance long back =>
    rw [List.append_assoc]
    obtain ⟨copies, total, same, found⟩ := length_eq long (distanceBytes ++ later)
    rw [blosclzToken_copy copies, found, Outcome.ok_bind, same, finishCopy_eq back]
    refine ⟨fun reaches => if_pos reaches, fun before => ⟨_, if_neg before⟩⟩

theorem extension_eq (k : Nat) {last : UInt8} (stops : last ≠ 255) :
    extension (255 * k + last.toNat) = List.replicate k 255 ++ [last] := by
  have byte := last.toNat_lt
  have other : last.toNat ≠ 255 := fun same => stops (UInt8.toNat_inj.mp same)
  have quotient : (255 * k + last.toNat) / 255 = k := by omega
  have remainder : (255 * k + last.toNat) % 255 = last.toNat := by omega
  rw [extension, quotient, remainder, UInt8.ofNat_toNat]

/-- Bytes of a length come to one that ends it, or are all full. -/
theorem full_or_last (rest : Bytes) :
    (∃ k last later, last ≠ 255 ∧ rest = List.replicate k 255 ++ last :: later) ∨
      ∃ k, rest = List.replicate k 255 := by
  induction rest with
  | nil => exact .inr ⟨0, rfl⟩
  | cons byte rest ih =>
    by_cases full : byte = 255
    · subst full
      rcases ih with ⟨k, last, later, stops, rfl⟩ | ⟨k, rfl⟩
      · exact .inl ⟨k + 1, last, later, stops, rfl⟩
      · exact .inr ⟨k + 1, rfl⟩
    · exact .inl ⟨0, byte, rest, full, rfl⟩

theorem length_or_cut {field : Nat} (copies : field ≠ 0) (small : field < 8) (rest : Bytes) :
    (∃ bytes later length, LengthCode field bytes length ∧ rest = bytes ++ later) ∨
      ∃ more length, more ≠ [] ∧ LengthCode field (rest ++ more) length := by
  by_cases seven : field = 7
  · subst seven
    rcases full_or_last rest with ⟨k, last, later, stops, rfl⟩ | ⟨k, rfl⟩
    · left
      refine ⟨_, later, _, .long (255 * k + last.toNat), ?_⟩
      rw [extension_eq k stops, List.append_assoc, List.singleton_append]
    · right
      refine ⟨[0], 255 * k + 9, by simp, ?_⟩
      rw [← extension_eq k (by decide)]
      exact .long (255 * k)
  · exact .inl ⟨[], rest, field + 2, .short (by omega) (by omega), rfl⟩

theorem distance_or_cut {high : Nat} (small : high < 32) (rest : Bytes) :
    (∃ bytes later distance, DistanceCode high bytes distance ∧ rest = bytes ++ later) ∨
      ∃ more distance, more ≠ [] ∧ DistanceCode high (rest ++ more) distance := by
  cases rest with
  | nil =>
    have short : high * 2 ^ 8 + (0 : UInt8).toNat < 0x1fff := by simp; omega
    exact .inr ⟨[0], _, by simp, .near short⟩
  | cons low rest =>
    by_cases short : high * 2 ^ 8 + low.toNat < 0x1fff
    · exact .inl ⟨[low], rest, _, .near short, rfl⟩
    · have byte := low.toNat_lt
      obtain rfl : high = 31 := by omega
      obtain rfl : low = 255 := UInt8.toNat_inj.mp (by simp; omega)
      match rest with
      | [] => exact .inr ⟨[0, 0], _, by simp, .far 0 0⟩
      | [high] => exact .inr ⟨[0], _, by simp, .far high 0⟩
      | high :: low :: later => exact .inl ⟨[255, high, low], later, _, .far high low, rfl⟩

/-- A stream goes on with a token, or ends within one. -/
theorem complete_or_cut (first : Bool) (mark : UInt8) (rest : Bytes) :
    (∃ token code later, Encodes first token (mark :: code) ∧ rest = code ++ later) ∨
      CutOff first (mark :: rest) := by
  have byte := mark.toNat_lt
  by_cases kind : first = true ∨ mark.toNat / 2 ^ 5 = 0
  · by_cases all : mark.toNat % 2 ^ 5 + 1 ≤ rest.length
    · left
      have count : (rest.take (mark.toNat % 2 ^ 5 + 1)).length = mark.toNat % 2 ^ 5 + 1 :=
        List.length_take_of_le all
      exact ⟨_, _, rest.drop (mark.toNat % 2 ^ 5 + 1), .literals kind count,
        (List.take_append_drop _ rest).symm⟩
    · right
      have short := Nat.lt_of_not_le all
      have count : (rest ++ List.replicate (mark.toNat % 2 ^ 5 + 1 - rest.length) (0 : UInt8)).length =
          mark.toNat % 2 ^ 5 + 1 := by
        simp
        omega
      refine ⟨by simp, _, _, ?_, .literals kind count⟩
      simp
      omega
  · obtain ⟨later, copies⟩ := not_or.mp kind
    obtain rfl : first = false := by simpa using later
    have marked (bytes : Bytes) : (mark :: rest) ++ bytes = mark :: (rest ++ bytes) := rfl
    rcases length_or_cut copies (by omega) rest with ⟨lengthBytes, behind, length, long, rfl⟩ |
      ⟨more, length, some_, long⟩
    · rcases distance_or_cut (Nat.mod_lt mark.toNat (by decide)) behind with
        ⟨distanceBytes, later, distance, back, rfl⟩ | ⟨more, distance, some_, back⟩
      · exact .inl ⟨_, _, later, .copy long back, (List.append_assoc _ _ _).symm⟩
      · refine .inr ⟨by simp, .copy length distance, more, some_, ?_⟩
        rw [marked, List.append_assoc]
        exact .copy long back
    · -- The length is cut off; any distance may follow it.
      have short : mark.toNat % 2 ^ 5 * 2 ^ 8 + (0 : UInt8).toNat < 0x1fff := by simp; omega
      have encodes := Encodes.copy long (.near short)
      rw [List.append_assoc] at encodes
      exact .inr ⟨by simp, _, more ++ [0], by simp, encodes⟩

theorem finishCopy_cut {high distance : Nat} {code more : Bytes} (some_ : more ≠ [])
    (coded : DistanceCode high (code ++ more) distance) (length : Nat) (out : Bytes) :
    ∃ e, finishCopy high length code out = .error e := by
  generalize whole : code ++ more = bytes at coded
  cases coded with
  | near short =>
    cases code with
    | nil => exact ⟨_, rfl⟩
    | cons _ code => simp_all
  | far high low =>
    have full : 31 * 2 ^ 8 + (255 : UInt8).toNat = 0x1fff := by decide
    match code with
    | [] => exact ⟨_, rfl⟩
    | [byte] =>
      obtain ⟨rfl, -⟩ := List.cons_eq_cons.mp whole
      exact ⟨_, by simp [finishCopy]; rfl⟩
    | [byte, next] =>
      obtain ⟨rfl, -⟩ := List.cons_eq_cons.mp whole
      exact ⟨_, by simp [finishCopy]; rfl⟩
    | _ :: _ :: _ :: code => simp_all

theorem length_cut {n : Nat} {code more : Bytes} (whole : code ++ more = extension n) :
    (more = [] ∧ code = extension n) ∨ ∃ k, code = List.replicate k 255 := by
  rcases List.eq_nil_or_concat more with rfl | ⟨front, last, rfl⟩
  · exact .inl ⟨rfl, by simpa using whole⟩
  · right
    rw [List.concat_eq_append, ← List.append_assoc, extension] at whole
    obtain ⟨same, -⟩ := List.append_inj' whole rfl
    have full := List.eq_replicate_iff.mp same
    exact ⟨code.length, List.eq_replicate_iff.mpr ⟨rfl, fun byte member => full.2 byte (by simp [member])⟩⟩

/-- A copy that is cut off is refused: within its length, or within its distance. -/
theorem copy_cut {field high length distance : Nat} {lengthBytes distanceBytes rest more : Bytes}
    (long : LengthCode field lengthBytes length) (back : DistanceCode high distanceBytes distance)
    (some_ : more ≠ []) (whole : rest ++ more = lengthBytes ++ distanceBytes) (out : Bytes) :
    ∃ e, ((if field = 7 then matchLength rest 7 else .ok (field, rest)) >>= fun found =>
      finishCopy high (found.1 + 2) found.2 out : Code (Bytes × Bytes)) = .error e := by
  have behind {later : Bytes} (split : distanceBytes = later ++ more) (front : rest = lengthBytes ++ later) :
      ∃ e, ((if field = 7 then matchLength rest 7 else .ok (field, rest)) >>= fun found =>
        finishCopy high (found.1 + 2) found.2 out : Code (Bytes × Bytes)) = .error e := by
    subst split front
    obtain ⟨-, total, -, found⟩ := length_eq long later
    rw [found, Outcome.ok_bind]
    exact finishCopy_cut some_ back _ out
  rcases List.append_eq_append_iff.mp whole with ⟨later, split, after⟩ | ⟨later, front, split⟩
  · cases long with
    | short low high =>
      obtain ⟨rfl, rfl⟩ := List.append_eq_nil_iff.mp split.symm
      exact behind (by simpa using after.symm) rfl
    | long n =>
      rcases length_cut split.symm with ⟨rfl, rfl⟩ | ⟨k, rfl⟩
      · exact @behind [] after.symm (List.append_nil _).symm
      · obtain ⟨e, failed⟩ := matchLength_cut k 7
        exact ⟨e, by rw [if_pos rfl, failed, Outcome.error_bind]⟩
  · exact behind split front

theorem blosclzToken_cut {rest : Bytes} (cut : CutOff first (mark :: rest)) (out : Bytes) :
    ∃ e, blosclzToken first mark.toNat rest out = .error e := by
  obtain ⟨-, token, more, some_, encodes⟩ := cut
  rw [List.cons_append] at encodes
  generalize whole : rest ++ more = code at encodes
  cases encodes with
  | literals kind count =>
    have short : mark.toNat % 2 ^ 5 + 1 > rest.length := by
      rw [← count, ← whole, List.length_append]
      exact Nat.lt_add_of_pos_right (List.length_pos_of_ne_nil some_)
    rw [blosclzToken, if_pos kind]
    dsimp only
    exact ⟨_, if_pos short⟩
  | @copy _ lengthBytes distanceBytes length distance long back =>
    rw [blosclzToken_copy (length_eq long []).1]
    exact copy_cut long back some_ whole out

end Tokens

section Streams

variable {first : Bool} {out front rest data : Bytes} {tokens : List Token}

/-- The stream goes wrong here. -/
def Fails (first : Bool) (out rest : Bytes) : Prop := CutOff first rest ∨ ReachesBefore first out rest

theorem Encodes.mark {token : Token} {bytes : Bytes} (encodes : Encodes first token bytes) :
    ∃ mark code, bytes = mark :: code := by
  cases encodes with
  | literals => exact ⟨_, _, rfl⟩
  | copy => exact ⟨_, _, rfl⟩

/-- A token is taken off the stream and expanded; the budget is one of bytes, and it has at least one. -/
theorem blosclzTokens_token {budget : Nat} {token : Token} {bytes : Bytes} (encodes : Encodes first token bytes)
    (reaches : token.Reaches out) (room : (bytes ++ rest).length ≤ budget) :
    ∃ left, rest.length ≤ left ∧
      blosclzTokens budget first (bytes ++ rest) out =
      blosclzTokens left false rest (expandToken out token) := by
  obtain ⟨mark, code, rfl⟩ := encodes.mark
  cases budget with
  | zero => simp at room
  | succ left =>
    have read := (blosclzToken_eq encodes rest out).1 reaches
    refine ⟨left, ?_, ?_⟩
    · simp only [List.cons_append, List.length_cons, List.length_append] at room
      omega
    · rw [List.cons_append, blosclzTokens, read, Outcome.ok_bind]

/-- A whole stream is expanded. -/
theorem blosclzTokens_eq {budget : Nat} (stream : Stream first out tokens data) (room : data.length ≤ budget) :
    blosclzTokens budget first data out = .ok (expand out tokens) := by
  induction stream generalizing budget with
  | nil first out => cases budget <;> rfl
  | cons encodes reaches later ih =>
    obtain ⟨left, enough, step⟩ := blosclzTokens_token encodes reaches room
    rw [step, ih enough]
    rfl

/-- A stream that goes wrong behind some tokens is refused. -/
theorem blosclzTokens_fails {budget : Nat} (stream : Stream first out tokens front)
    (fails : Fails (first && tokens.isEmpty) (expand out tokens) rest)
    (room : (front ++ rest).length ≤ budget) :
    ∃ e, blosclzTokens budget first (front ++ rest) out = .error e := by
  induction stream generalizing budget with
  | nil first out =>
    rw [List.isEmpty_nil, Bool.and_true] at fails
    rw [List.nil_append] at room ⊢
    have refused {mark : UInt8} {later : Bytes} (same : rest = mark :: later)
        (token : ∃ e, blosclzToken first mark.toNat later out = .error e) :
        ∃ e, blosclzTokens budget first rest out = .error e := by
      subst same
      obtain ⟨e, failed⟩ := token
      cases budget with
      | zero => simp at room
      | succ left => exact ⟨e, by rw [blosclzTokens, failed, Outcome.error_bind]⟩
    rcases fails with cut | ⟨token, bytes, later, encodes, before, rfl⟩
    · obtain ⟨mark, later, rfl⟩ := List.exists_cons_of_ne_nil cut.1
      exact refused rfl (blosclzToken_cut cut out)
    · obtain ⟨mark, code, rfl⟩ := encodes.mark
      exact refused rfl ((blosclzToken_eq encodes later out).2 before)
  | @cons first out bytes behind token tokens encodes reaches later ih =>
    rw [List.append_assoc] at room ⊢
    obtain ⟨left, enough, step⟩ := blosclzTokens_token encodes reaches room
    rw [List.isEmpty_cons, Bool.and_false] at fails
    rw [step]
    exact ih fails enough

/-- Every byte string is a stream, or goes wrong behind one. -/
theorem stream_or_fails (length : Nat) (first : Bool) (out data : Bytes) (bound : data.length ≤ length) :
    (∃ tokens, Stream first out tokens data) ∨
      ∃ tokens front rest, Stream first out tokens front ∧ data = front ++ rest ∧
        Fails (first && tokens.isEmpty) (expand out tokens) rest := by
  induction length generalizing first out data with
  | zero =>
    obtain rfl : data = [] := List.eq_nil_of_length_eq_zero (Nat.le_zero.mp bound)
    exact .inl ⟨[], .nil first out⟩
  | succ length ih =>
    cases data with
    | nil => exact .inl ⟨[], .nil first out⟩
    | cons mark rest =>
      have here (fails : Fails first out (mark :: rest)) : ∃ tokens front behind,
        Stream first out tokens front ∧
          mark :: rest = front ++ behind ∧ Fails (first && tokens.isEmpty) (expand out tokens) behind := by
        refine ⟨[], [], mark :: rest, .nil first out, rfl, ?_⟩
        rw [List.isEmpty_nil, Bool.and_true]
        exact fails
      rcases complete_or_cut first mark rest with ⟨token, code, later, encodes, rfl⟩ | cut
      · by_cases reaches : token.Reaches out
        · have shorter : later.length ≤ length := by
            simp only [List.length_cons, List.length_append] at bound
            omega
          rcases ih false (expandToken out token) later shorter with
            ⟨tokens, stream⟩ | ⟨tokens, front, behind, stream, rfl, fails⟩
          · exact .inl ⟨token :: tokens, .cons encodes reaches stream⟩
          · refine .inr ⟨token :: tokens, mark :: code ++ front, behind, .cons encodes reaches stream, ?_, ?_⟩
            · simp
            · rw [List.isEmpty_cons, Bool.and_false]
              exact fails
        · exact .inr (here (.inr ⟨token, mark :: code, later, encodes, reaches, rfl⟩))
      · exact .inr (here (.inl cut))

theorem encodeLength_code {length : Nat} (least : 3 ≤ length) :
    LengthCode (min (length - 2) 7) (encodeLength length) length := by
  unfold encodeLength
  split
  · next short =>
    have field : min (length - 2) 7 = length - 2 := by omega
    have coded := @LengthCode.short (length - 2) (by omega) (by omega)
    rwa [field, show length - 2 + 2 = length by omega] at *
  · next long =>
    have field : min (length - 2) 7 = 7 := by omega
    have coded := LengthCode.long (length - 9)
    rwa [field, show length - 9 + 9 = length by omega] at *

theorem encodeDistance_code {distance : Nat} (least : 1 ≤ distance) (most : distance ≤ 8191 + 65536) :
    DistanceCode (min (distance - 1) 0x1fff / 2 ^ 8) (encodeDistance distance) distance := by
  unfold encodeDistance
  split
  · next short =>
    have byte : (UInt8.ofNat ((distance - 1) % 2 ^ 8)).toNat = (distance - 1) % 2 ^ 8 :=
      UInt8.toNat_ofNat_of_lt' (Nat.mod_lt _ (by decide))
    have parts : (distance - 1) / 2 ^ 8 * 2 ^ 8 + (UInt8.ofNat ((distance - 1) % 2 ^ 8)).toNat =
      distance - 1 := by
      omega
    have high : min (distance - 1) 0x1fff / 2 ^ 8 = (distance - 1) / 2 ^ 8 := by omega
    have coded := @DistanceCode.near ((distance - 1) / 2 ^ 8) (UInt8.ofNat ((distance - 1) % 2 ^ 8)) (by omega)
    rwa [parts, Nat.sub_add_cancel least, ← high] at coded
  · next long =>
    have high : min (distance - 1) 0x1fff / 2 ^ 8 = 31 := by omega
    have bytes : bigEndian 2 (distance - 0x2000) =
        [UInt8.ofNat ((distance - 0x2000) / 256), UInt8.ofNat (distance - 0x2000)] := rfl
    have first : (UInt8.ofNat ((distance - 0x2000) / 256)).toNat = (distance - 0x2000) / 256 :=
      UInt8.toNat_ofNat_of_lt' (by change _ < 256; omega)
    have second : (UInt8.ofNat (distance - 0x2000)).toNat = (distance - 0x2000) % 256 := by simp
    have coded := DistanceCode.far (UInt8.ofNat ((distance - 0x2000) / 256)) (UInt8.ofNat (distance - 0x2000))
    have total : 0x1fff + ((distance - 0x2000) / 256 * 2 ^ 8 + (distance - 0x2000) % 256) + 1 =
      distance := by omega
    rw [first, second, total] at coded
    rwa [high, bytes]

/-- The bytes of a token that the format has a code for. -/
theorem encodes_encode {token : Token} (valid : token.Valid)
    (kind : first = true → ∃ bytes, token = .literals bytes) :
    Encodes first token token.encode := by
  cases token with
  | literals bytes =>
    obtain ⟨some_, few⟩ := valid
    have byte : (UInt8.ofNat (bytes.length - 1)).toNat = bytes.length - 1 :=
      UInt8.toNat_ofNat_of_lt' (by change _ < 256; omega)
    exact .literals (.inr (by rw [byte]; omega)) (by rw [byte]; omega)
  | copy length distance =>
    obtain ⟨long, least, most⟩ := valid
    obtain rfl : first = false := by
      cases first with
      | false => rfl
      | true => exact absurd (kind rfl) (by simp)
    have small : min (length - 2) 7 * 2 ^ 5 + min (distance - 1) 0x1fff / 2 ^ 8 < 256 := by omega
    have byte := UInt8.toNat_ofNat_of_lt' small
    have field : (min (length - 2) 7 * 2 ^ 5 + min (distance - 1) 0x1fff / 2 ^ 8) / 2 ^ 5 =
      min (length - 2) 7 := by
      omega
    have high : (min (length - 2) 7 * 2 ^ 5 + min (distance - 1) 0x1fff / 2 ^ 8) % 2 ^ 5 =
        min (distance - 1) 0x1fff / 2 ^ 8 := by
      omega
    apply Encodes.copy
    · rw [byte, field]
      exact encodeLength_code long
    · rw [byte, high]
      exact encodeDistance_code least most

/-- Tokens that may be written behind some output. -/
inductive Writable : Bool → Bytes → List Token → Prop where
  | nil (first : Bool) (out : Bytes) : Writable first out []
  | cons {first : Bool} {out : Bytes} {token : Token} {tokens : List Token} (valid : token.Valid)
    (kind : first = true → ∃ bytes, token = .literals bytes) (reaches : token.Reaches out)
    (later : Writable false (expandToken out token) tokens) : Writable first out (token :: tokens)

theorem Writable.stream (writable : Writable first out tokens) :
    Stream first out tokens (tokens.flatMap Token.encode) := by
  induction writable with
  | nil first out => exact .nil first out
  | cons valid kind reaches later ih =>
    rw [List.flatMap_cons]
    exact .cons (encodes_encode valid kind) reaches ih

end Streams

/-- Any tokens that the format can write are decoded to what they expand to, one after the other.
Decoding ends for every byte string: in an error exactly if a token is cut off by the end of the stream
or a copy reaches before the start of the output, and never in a panic, for a size that an allocation
may have. -/
theorem unblosclz_expands {expectedLen : Nat} (allowed : expectedLen ≤ isizeMax) :
    (∀ tokens, Writable true [] tokens → unblosclz (tokens.flatMap Token.encode) expectedLen =
      .ok (expand [] tokens)) ∧
    ∀ data, ¬ (unblosclz data expectedLen).Panics ∧
      ((∃ e, unblosclz data expectedLen = .error e) ↔
        ∃ tokens front rest, Stream true [] tokens front ∧ data = front ++ rest ∧
          (CutOff tokens.isEmpty rest ∨ ReachesBefore tokens.isEmpty (expand [] tokens) rest)) ∧
      ∀ out, unblosclz data expectedLen = .ok out ↔
        ∃ tokens, Stream true [] tokens data ∧ out = expand [] tokens := by
  have started (data : Bytes) : unblosclz data expectedLen = blosclzTokens data.length true data [] := by
    rw [unblosclz, withCapacity, if_pos allowed, Outcome.ok_bind]
  have decodes {tokens : List Token} {data : Bytes} (stream : Stream true [] tokens data) :
      unblosclz data expectedLen = .ok (expand [] tokens) := by
    rw [started]
    exact blosclzTokens_eq stream le_rfl
  have refuses {tokens : List Token} {front rest : Bytes} (stream : Stream true [] tokens front)
      (fails : Fails tokens.isEmpty (expand [] tokens) rest) :
      ∃ e, unblosclz (front ++ rest) expectedLen = .error e := by
    rw [started]
    exact blosclzTokens_fails stream fails le_rfl
  constructor
  · exact fun tokens writable => decodes writable.stream
  · intro data
    refine ⟨fun panics => absurd (unblosclz_panics.mp panics) (Nat.not_lt.mpr allowed), ?_, fun out => ?_⟩
    · constructor
      · rintro ⟨e, failed⟩
        rcases stream_or_fails data.length true [] data le_rfl with ⟨tokens, stream⟩ |
          ⟨tokens, front, rest, whole⟩
        · rw [decodes stream] at failed
          cases failed
        · exact ⟨tokens, front, rest, whole⟩
      · rintro ⟨tokens, front, rest, stream, rfl, fails⟩
        exact refuses stream fails
    · constructor
      · intro done
        rcases stream_or_fails data.length true [] data le_rfl with
          ⟨tokens, stream⟩ | ⟨tokens, front, rest, stream, rfl, fails⟩
        · rw [decodes stream] at done
          exact ⟨tokens, stream, (Outcome.ok.inj done).symm⟩
        · obtain ⟨e, failed⟩ := refuses stream fails
          rw [failed] at done
          cases done
      · rintro ⟨tokens, stream, rfl⟩
        exact decodes stream

/-- Three literals, and a copy of eight bytes that reaches into itself. -/
theorem unblosclz_expands_overlapping :
    unblosclz [2, 1, 2, 3, 0xc0, 1] 11 = .ok [1, 2, 3, 2, 3, 2, 3, 2, 3, 2, 3] :=
  (@unblosclz_expands 11 (by decide)).1 [.literals [1, 2, 3], .copy 8 2]
    (.cons ⟨by decide, by decide⟩ (fun _ => ⟨_, rfl⟩) trivial
      (.cons ⟨by decide, by decide, by decide⟩ nofun (by unfold Token.Reaches; decide) (.nil _ _)))

end Oxcdf.Filters
