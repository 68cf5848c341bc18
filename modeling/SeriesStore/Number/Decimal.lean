import SeriesStore.Prelude

/-!
# Reading a decimal as a double

`Decimal.toFloat neg c E` is the double nearest to `±c · 10 ^ E`, a tie going to the even
mantissa; past the largest double it is an infinity. The arithmetic is exact: the value is a
fraction `N / D` of natural numbers, its binary exponent `k` is found from the lengths of `N`
and `D`, and one division by `D` of `N` scaled to 53 bits (fewer below the normal range)
gives the mantissa and the remainder that decides the rounding.
-/

namespace SeriesStore

namespace Decimal

/-- The largest `k` with `2 ^ k ≤ N / D`, for `N, D > 0`. -/
def binaryExponent (N D : Nat) : Int :=
  let k : Int := (N.log2 : Int) - D.log2
  let le (k : Int) : Bool := N * 2 ^ (-k).toNat ≥ D * 2 ^ k.toNat
  if le k then k else k - 1

/-- `N / D` scaled by `2 ^ s`, rounded to the nearest integer, a tie to the even one. -/
def roundScaled (N D : Nat) (s : Int) : Nat :=
  let num := N * 2 ^ s.toNat
  let den := D * 2 ^ (-s).toNat
  let q := num / den
  let r := num % den
  if 2 * r > den ∨ (2 * r = den ∧ q % 2 = 1) then q + 1 else q

/-- The bit pattern of the double nearest to `c · 10 ^ E`, sign apart. -/
def magnitudeBits (c : Nat) (E : Int) : UInt64 :=
  if c = 0 then 0
  else if E > 350 then 0x7ff0000000000000
  else if ((c.log2 + 1) * 30103 / 100000 : Nat) + 1 + E < -330 then 0
  else
    let N := c * 10 ^ E.toNat
    let D := 10 ^ (-E).toNat
    let k := binaryExponent N D
    if k < -1022 then
      -- below the normal range: a multiple of the least subnormal; reaching 2 ^ 52 is the
      -- least normal double, whose pattern is the same number
      (roundScaled N D 1074).toUInt64
    else
      let q := roundScaled N D (52 - k)
      let (q, k) := if q = 2 ^ 53 then (2 ^ 52, k + 1) else (q, k)
      if k > 1023 then 0x7ff0000000000000
      else ((((k + 1023).toNat) * 2 ^ 52) + (q - 2 ^ 52)).toUInt64

/-- The double nearest to `±c · 10 ^ E`. -/
def toFloat (negative : Bool) (c : Nat) (E : Int) : Float :=
  let bits := magnitudeBits c E
  Float.ofBits (if negative then bits ||| 0x8000000000000000 else bits)

/-- The double nearest to `10 ^ i`. -/
def power (i : Nat) : Float := toFloat false 1 i

/-- `c` rounded to a double, then multiplied or divided by the double nearest to `10 ^ |E|`,
dividing first by `10 ^ 308` as often as needed for a power beyond it; `none` when the result
is not finite. Each step rounds, so the result may differ from the nearest double in its last
bit. -/
def scaleStepwise (c : Nat) (E : Int) : Option Float :=
  let start := toFloat false c 0
  let rec go : Nat → Float → Int → Option Float
    | 0, f, _ => some f
    | fuel + 1, f, e =>
      if e.natAbs ≤ 308 then
        if e ≥ 0 then
          let g := f * power e.toNat
          if g.isInf then none else some g
        else some (f / power e.natAbs)
      else if f == 0 then some f
      else if e ≥ 0 then none
      else go fuel (f / power 308) (e + 308)
  go (E.natAbs / 308 + 2) start E

end Decimal

end SeriesStore
