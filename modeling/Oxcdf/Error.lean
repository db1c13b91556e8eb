import Oxcdf.Foundation.Machine

/-! The reader's error type and the sizes that bound every request. -/

set_option autoImplicit false

namespace Oxcdf

open Foundation

abbrev Bytes := List UInt8

inductive Error where
  | io (message : String)
  | malformed (message : String)
  | outOfBounds (what : String) (offset len available : Nat)
  | unsupported (message : String)
  | checksumMismatch (what : String) (stored computed : Nat)
  | notFound (message : String)
  | typeMismatch (stored asked what : String)
  | badRequest (message : String)
  | incomplete
  deriving DecidableEq, Repr

/-- A number with `0x` and eight hexadecimal digits at least. -/
def hexadecimal (n : Nat) : String :=
  let digits := Nat.toDigits 16 n
  String.ofList ('0' :: 'x' :: (List.replicate (8 - digits.length) '0' ++ digits))

def Error.display : Error → String
  | .io message => s!"io error: {message}"
  | .malformed message => s!"malformed HDF5: {message}"
  | .outOfBounds what offset len available =>
    s!"{what} read out of bounds: wanted {len} bytes at offset {offset}, " ++
      s!"but only {available} bytes are available"
  | .unsupported message => s!"unsupported HDF5 feature: {message}"
  | .checksumMismatch what stored computed =>
    let found := hexadecimal stored
    let expected := hexadecimal computed
    s!"{what} checksum mismatch: file stores {found}, computed {expected}"
  | .notFound message => s!"not found: {message}"
  | .typeMismatch stored asked what =>
    let place := if what = "" then "" else s!" for {what}"
    s!"type mismatch{place}: the variable stores {stored}, but {asked} was asked for; " ++
      "this reader does not convert between numeric types"
  | .badRequest message => s!"bad request: {message}"
  | .incomplete =>
    "the bytes are not in memory: an asynchronous open produced this file, so use the asynchronous read methods"

/-- What checked code returns: a value, one of the errors above, or a panic. -/
abbrev Code (α : Type) := Outcome Error α

/-- `isize::MAX`: no allocation and no file is larger. -/
def isizeMax : Nat := 2 ^ 63 - 1

theorem isizeMax_lt_wordSize : isizeMax < wordSize := by decide

/-- `vec![0u8; len]`, which panics when no allocation may be that large. -/
def zeroed (len : Nat) : Code Bytes :=
  if len ≤ isizeMax then .ok (List.replicate len 0) else .panic .capacity

theorem zeroed_of_le {len : Nat} (small : len ≤ isizeMax) : zeroed len = .ok (List.replicate len 0) :=
  if_pos small

theorem zeroed_eq_ok {len : Nat} {buffer : Bytes} :
    zeroed len = .ok buffer ↔ len ≤ isizeMax ∧ buffer = List.replicate len 0 := by
  unfold zeroed
  split
  · next small => simp [small, eq_comm]
  · next large => simp [large]

end Oxcdf
