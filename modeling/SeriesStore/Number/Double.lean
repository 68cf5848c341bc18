import SeriesStore.Prelude

/-!
# Doubles by their bits

Stored values are IEEE doubles, and their exact bit patterns are kept: two NaNs with
different payloads are different stored values. A `Double` is therefore its bit pattern.

Addition and subtraction are computed exactly as IEEE 754 prescribes, in round to nearest: a
finite pattern is a whole multiple of the least subnormal `2 ^ -1074` (`magnitude`), so the
exact sum of two is a whole number in that unit, rounded once to 53 significant bits, a tie
going to the even one (`roundMagnitude`), and encoded (`encode`), infinity past the largest
finite magnitude. An exact zero sum is `-0` only when both operands are `-0`. Multiplication
and division go through `Float`. The NaN a result carries follows the processor's rule: the
first operand's NaN if it is one, else the second's, made quiet; an invalid operation on
numbers (`∞ - ∞`, `0 / 0`) gives the default NaN, whose sign bit is set. The least and the
greatest return one of their operands unchanged.
-/

namespace SeriesStore

/-- An IEEE double, by its bit pattern. -/
structure Double where
  bits : UInt64
  deriving Repr, DecidableEq, Inhabited, Hashable

namespace Double

/-- The quiet NaN that marks a missing value. -/
def nan : Double := ⟨0x7ff8000000000000⟩

/-- The NaN an invalid operation yields. -/
def defaultNaN : Double := ⟨0xfff8000000000000⟩

/-- Positive zero. -/
def zero : Double := ⟨0⟩

/-- Positive infinity. -/
def infinity : Double := ⟨0x7ff0000000000000⟩

/-- Negative infinity. -/
def negInfinity : Double := ⟨0xfff0000000000000⟩

/-- Whether the pattern is a NaN: all exponent bits set and a non-zero fraction. -/
def isNaN (x : Double) : Bool :=
  x.bits &&& 0x7ff0000000000000 == 0x7ff0000000000000 && x.bits &&& 0x000fffffffffffff != 0

/-- Whether the pattern is an infinity. -/
def isInf (x : Double) : Bool := x.bits &&& 0x7fffffffffffffff == 0x7ff0000000000000

/-- Whether the sign bit is set. -/
def signBit (x : Double) : Bool := x.bits >>> 63 == 1

/-- The NaN made quiet. -/
def quiet (x : Double) : Double := ⟨x.bits ||| 0x0008000000000000⟩

/-- The value as a `Float`; a NaN's payload is not kept. -/
def toFloat (x : Double) : Float := Float.ofBits x.bits

/-- A `Float` that is not a NaN, by its bits; a NaN becomes the default NaN. -/
def ofFloat (f : Float) : Double := if f.isNaN then defaultNaN else ⟨f.toBits⟩

/-- Negative zero. -/
def negZero : Double := ⟨0x8000000000000000⟩

/-- The biased exponent: bits 52 to 62 of the pattern. -/
def expField (x : Double) : Nat := x.bits.toNat / 2 ^ 52 % 2 ^ 11

/-- The fraction: the low 52 bits of the pattern. -/
def fracField (x : Double) : Nat := x.bits.toNat % 2 ^ 52

/-- The magnitude of a finite pattern as a multiple of the least subnormal, `2 ^ -1074`: the
fraction below the least normal exponent, else the fraction under its hidden bit, shifted by
the exponent. -/
def magnitude (x : Double) : Nat :=
  if x.expField = 0 then x.fracField else (2 ^ 52 + x.fracField) * 2 ^ (x.expField - 1)

/-- The magnitude signed by the sign bit. -/
def signedMagnitude (x : Double) : Int := if x.signBit then -(x.magnitude : Int) else x.magnitude

/-- A magnitude rounded to 53 significant bits: the nearest such magnitude, of two equally near
the one whose last significant bit is clear. -/
def roundMagnitude (n : Nat) : Nat :=
  if n < 2 ^ 53 then n
  else
    let s := n.log2 - 52
    let q := n / 2 ^ s
    let r := n % 2 ^ s
    let q := if 2 * r > 2 ^ s || (2 * r == 2 ^ s && q % 2 == 1) then q + 1 else q
    q * 2 ^ s

/-- The pattern of a magnitude of at most 53 significant bits, with a sign: a subnormal below
`2 ^ 52`, else the exponent its top bit gives; infinity past the largest finite magnitude. -/
def encode (negative : Bool) (m : Nat) : Double :=
  let sign := if negative then 2 ^ 63 else 0
  if m < 2 ^ 52 then ⟨UInt64.ofNat (sign + m)⟩
  else
    let s := m.log2 - 52
    if 2046 ≤ s then ⟨UInt64.ofNat (sign + 2047 * 2 ^ 52)⟩
    else ⟨UInt64.ofNat (sign + (s + 1) * 2 ^ 52 + (m / 2 ^ s - 2 ^ 52))⟩

/-- The sum of two numbers (neither a NaN), correctly rounded: infinities of opposite signs give
the default NaN, an infinity wins over a finite number, and finite numbers add exactly and are
rounded once. -/
def addNumbers (a b : Double) : Double :=
  if a.isInf then (if b.isInf && a.signBit != b.signBit then defaultNaN else a)
  else if b.isInf then b
  else
    let sum := a.signedMagnitude + b.signedMagnitude
    if sum = 0 then (if a.signBit && b.signBit then negZero else zero)
    else encode (decide (sum < 0)) (roundMagnitude sum.natAbs)

/-- The result of an operation: the first NaN operand made quiet, else the number computed. -/
def arith (op : Double → Double → Double) (a b : Double) : Double :=
  if a.isNaN then a.quiet
  else if b.isNaN then b.quiet
  else op a b

/-- An operation on numbers computed by `Float`. -/
def viaFloat (op : Float → Float → Float) (a b : Double) : Double := ofFloat (op a.toFloat b.toFloat)

/-- The sign flipped, NaN included. -/
def neg (x : Double) : Double := ⟨x.bits ^^^ 0x8000000000000000⟩

instance : Add Double := ⟨arith addNumbers⟩
instance : Sub Double := ⟨arith fun a b => addNumbers a b.neg⟩
instance : Mul Double := ⟨arith (viaFloat (· * ·))⟩
instance : Div Double := ⟨arith (viaFloat (· / ·))⟩

instance : Neg Double := ⟨neg⟩

/-- Where a pattern that is not a NaN stands among the numbers: its magnitude, negated when the
sign bit is set. Magnitudes grow with the numbers they encode, infinity last, so IEEE order on
numbers is the order of these keys, and the two zeros share the key 0. -/
def orderKey (x : Double) : Int :=
  let magnitude : Int := (x.bits &&& 0x7fffffffffffffff).toNat
  if x.signBit then -magnitude else magnitude

/-- Numeric order; false when either is a NaN. -/
def lt (a b : Double) : Bool := !a.isNaN && !b.isNaN && decide (a.orderKey < b.orderKey)

/-- Numeric equality; false when either is a NaN, and `0 = -0`. -/
def eqNum (a b : Double) : Bool := !a.isNaN && !b.isNaN && decide (a.orderKey = b.orderKey)

/-- Numeric order, `≤`; false when either is a NaN, and `0 ≤ -0`. -/
def le (a b : Double) : Bool := !a.isNaN && !b.isNaN && decide (a.orderKey ≤ b.orderKey)

/-- The least: the second when the first is a NaN, else the second when it is no larger, so
that of two equal zeros the second wins. -/
def least (a b : Double) : Double := if a.isNaN then b else if le b a then b else a

/-- The greatest: the second when the first is a NaN, else the second when it is no smaller,
so that of two equal zeros the second wins. -/
def greatest (a b : Double) : Double := if a.isNaN then b else if le a b then b else a

/-- A natural number, rounded to the nearest double. -/
def ofNat (n : Nat) : Double := encode false (roundMagnitude (n * 2 ^ 1074))

end Double

end SeriesStore
