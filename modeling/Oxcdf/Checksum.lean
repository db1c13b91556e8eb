import Oxcdf.Error

/-! The checksum that the container's own structures end with: Jenkins lookup3
over the bytes before it. -/

set_option autoImplicit false

namespace Oxcdf.Checksum

def rot (x k : UInt32) : UInt32 := (x <<< k) ||| (x >>> (32 - k))

structure Lanes where
  a : UInt32
  b : UInt32
  c : UInt32
  deriving DecidableEq, Repr

namespace Lanes

def mix (lanes : Lanes) : Lanes :=
  let ⟨a, b, c⟩ := lanes
  let a := (a - c) ^^^ rot c 4
  let c := c + b
  let b := (b - a) ^^^ rot a 6
  let a := a + c
  let c := (c - b) ^^^ rot b 8
  let b := b + a
  let a := (a - c) ^^^ rot c 16
  let c := c + b
  let b := (b - a) ^^^ rot a 19
  let a := a + c
  let c := (c - b) ^^^ rot b 4
  let b := b + a
  ⟨a, b, c⟩

def finalMix (lanes : Lanes) : Lanes :=
  let ⟨a, b, c⟩ := lanes
  let c := (c ^^^ b) - rot b 14
  let a := (a ^^^ c) - rot c 11
  let b := (b ^^^ a) - rot a 25
  let c := (c ^^^ b) - rot b 16
  let a := (a ^^^ c) - rot c 4
  let b := (b ^^^ a) - rot a 14
  let c := (c ^^^ b) - rot b 24
  ⟨a, b, c⟩

end Lanes

/-- The four bytes at `i` as one little-endian word; bytes past the end add nothing. -/
def wordAt (k : Bytes) (i : Nat) : UInt32 :=
  let byte (j : Nat) : UInt32 := (k[i + j]?.getD 0).toUInt32
  (byte 3 <<< 24) + (byte 2 <<< 16) + (byte 1 <<< 8) + byte 0

/-- Add the next twelve bytes to the lanes. -/
def Lanes.absorb (lanes : Lanes) (k : Bytes) : Lanes :=
  ⟨lanes.a + wordAt k 0, lanes.b + wordAt k 4, lanes.c + wordAt k 8⟩

/-- Blocks of twelve bytes while more than twelve are left; the fuel is the
number of bytes. -/
def blocks : Nat → Lanes → Bytes → Lanes × Bytes
  | 0, lanes, k => (lanes, k)
  | fuel + 1, lanes, k =>
    if k.length > 12 then blocks fuel (lanes.absorb k).mix (k.drop 12) else (lanes, k)

def lookup3 (data : Bytes) (initval : UInt32) : UInt32 :=
  let seed : UInt32 := 0xdeadbeef + UInt32.ofNat data.length + initval
  let (lanes, k) := blocks data.length ⟨seed, seed, seed⟩ data
  if k.isEmpty then lanes.c else (lanes.absorb k).finalMix.c

def metadata (data : Bytes) : UInt32 := lookup3 data 0

/-- Reference vectors of lookup3. -/
example : lookup3 [] 0 = 0xdeadbeef ∧ lookup3 [] 0xdeadbeef = 0xbd5b7dde ∧
    lookup3 ("Four score and seven years ago".toUTF8.toList) 0 = 0x17770551 := by
  decide +kernel

end Oxcdf.Checksum
