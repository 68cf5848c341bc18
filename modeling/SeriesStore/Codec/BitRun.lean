import SeriesStore.Prelude

/-!
# Bit runs

A `BitRun` is a sequence of bits packed into bytes, the first bit in the high end of the
first byte. Writing a bit opens a fresh zero byte when the last byte is full and otherwise
sets the bit in place, so bits that a stored run carries past its `length` in its last byte
stay as they are. Reading is bounded by `length`.

    (r.pushBits v n).length = r.length + n        (length_pushBits)
-/

namespace SeriesStore

/-- Bits packed into bytes, most significant bit first; `length` counts the bits in use. -/
structure BitRun where
  bytes : Array UInt8 := #[]
  length : Nat := 0
  deriving Repr, Inhabited, DecidableEq

namespace BitRun

/-! ## Algorithm -/

/-- The run with no bits. -/
def empty : BitRun := {}

/-- Append one bit. -/
def pushBit (r : BitRun) (b : Bool) : BitRun :=
  let pos := r.length % 8
  let bytes := if pos = 0 then r.bytes.push 0 else r.bytes
  let bytes := if b then bytes.modify (bytes.size - 1) (· ||| ((1 : UInt8) <<< (7 - pos).toUInt8))
    else bytes
  { bytes, length := r.length + 1 }

/-- Append the low `n` bits of `v`, highest first. -/
def pushBits (r : BitRun) (v : Nat) : Nat → BitRun
  | 0 => r
  | n + 1 => (r.pushBit (v.testBit n)).pushBits v n

/-- The bit at position `p`, if `p` is inside the run. -/
def bit? (r : BitRun) (p : Nat) : Option Bool :=
  if p < r.length then
    r.bytes[p / 8]?.map fun byte => (byte >>> (7 - p % 8).toUInt8) &&& 1 == 1
  else none

/-- The `n` bits from position `p` on, read as a number, highest bit first. -/
def readBits (r : BitRun) (p : Nat) : Nat → Option Nat
  | 0 => some 0
  | n + 1 => do
    let b ← r.bit? p
    let rest ← r.readBits (p + 1) n
    pure ((if b then 2 ^ n else 0) + rest)

/-- Bytes needed to hold the run. -/
def byteLength (r : BitRun) : Nat := (r.length + 7) / 8

/-! ## Lemmas -/

@[simp] theorem length_pushBit (r : BitRun) (b : Bool) : (r.pushBit b).length = r.length + 1 := rfl

@[simp] theorem length_pushBits (r : BitRun) (v n : Nat) :
    (r.pushBits v n).length = r.length + n := by
  induction n generalizing r with
  | zero => rfl
  | succ n ih => simp only [pushBits, ih, length_pushBit]; omega

end BitRun

end SeriesStore
