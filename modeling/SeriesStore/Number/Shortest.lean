import SeriesStore.Prelude

/-!
# The shortest decimal that reads back as a double

A finite double `x = m · 2 ^ e` stands for every real that rounds to it: the interval around
`x` reaching half-way to its two neighbours, ends included when `m` is even (ties go to the
even mantissa). `Shortest.digits` finds the fewest significant digits `c` and exponent `E` with
`c · 10 ^ E` in that interval; of two such decimals it takes the nearer to `x`, and of two
equally near the one with an even last digit.

All arithmetic is exact, on natural numbers: for `k = 1, 2, …, 17` digits it looks at the two
multiples of `10 ^ E` next to `x`, and the first `k` where one of them lies in the interval wins.
If any decimal of a grid lies in the interval, one of the two next to `x` does, since the
interval is connected and holds `x`.
-/

namespace SeriesStore

namespace Shortest

/-- A finite double as `m · 2 ^ e` with its neighbourhood: the interval is
`[(4m - lowGap) · 2 ^ (e - 2), (4m + 2) · 2 ^ (e - 2)]`. -/
structure Binary where
  m : Nat
  e : Int
  lowGap : Nat
  deriving Repr

/-- Sign, mantissa and exponent of the bit pattern of a finite, non-zero double. -/
def Binary.ofBits (bits : UInt64) : Binary :=
  let f : Nat := bits.toNat % 2 ^ 52
  let be : Nat := bits.toNat / 2 ^ 52 % 2 ^ 11
  if be = 0 then { m := f, e := -1074, lowGap := 2 }
  else { m := f + 2 ^ 52, e := (be : Int) - 1075, lowGap := if f = 0 ∧ be > 1 then 1 else 2 }

/-- Compare `c · 10 ^ E` with `n · 2 ^ f`, exactly. -/
def compareScaled (c : Nat) (E : Int) (n : Nat) (f : Int) : Ordering :=
  compare (c * 10 ^ E.toNat * 2 ^ (-f).toNat) (n * 2 ^ f.toNat * 10 ^ (-E).toNat)

/-- The largest `p` with `10 ^ p ≤ x`, found from an estimate and corrected by at most a few
steps each way. -/
def decimalExponent (b : Binary) : Int :=
  let l : Int := (b.m.log2 : Int) + b.e
  let start := l * 30103 / 100000
  let below (p : Int) : Bool := compareScaled 1 p (4 * b.m) (b.e - 2) != .gt
  let up := (List.range 4).foldl (fun p _ => if below (p + 1) then p + 1 else p) start
  (List.range 4).foldl (fun p _ => if below p then p else p - 1) up

/-- On the grid of `10 ^ E`: the multiple at or below `x`, whether it is `x` itself, and the
numerator and denominator of `x / 10 ^ E`. -/
def gridFloor (b : Binary) (E : Int) : Nat × Nat × Nat :=
  let num := 4 * b.m * 2 ^ (b.e - 2).toNat * 10 ^ (-E).toNat
  let den := 2 ^ (2 - b.e).toNat * 10 ^ E.toNat
  (num / den, num, den)

/-- Whether `c · 10 ^ E` lies in the interval of `b`. -/
def inside (b : Binary) (c : Nat) (E : Int) : Bool :=
  let closed := b.m % 2 = 0
  let lowOk := match compareScaled c E (4 * b.m - b.lowGap) (b.e - 2) with
    | .gt => true
    | .eq => closed
    | .lt => false
  let highOk := match compareScaled c E (4 * b.m + 2) (b.e - 2) with
    | .lt => true
    | .eq => closed
    | .gt => false
  lowOk && highOk

/-- The decimal with `k` significant digits for `b`, if one lies in its interval. -/
def withDigits (b : Binary) (p : Int) (k : Nat) : Option (Nat × Int) :=
  let E := p - k + 1
  let (c0, num, den) := gridFloor b E
  let c1 := c0 + 1
  let in0 := inside b c0 E
  let in1 := inside b c1 E
  if in0 && in1 then
    let d0 := num - c0 * den
    let d1 := c1 * den - num
    if d0 < d1 then some (c0, E)
    else if d1 < d0 then some (c1, E)
    else if c0 % 2 = 0 then some (c0, E) else some (c1, E)
  else if in0 then some (c0, E)
  else if in1 then some (c1, E)
  else none

/-- The same decimal `c · 10 ^ E` with the trailing zeros of `c` moved into the exponent. A
grid can round up to a power of ten (`9.99… · 10 ^ 22` to `10 · 10 ^ 22`), so a winner may end
in zero. -/
def dropTrailingZeros (c : Nat) (E : Int) : Nat × Int :=
  if c ≠ 0 ∧ c % 10 = 0 then dropTrailingZeros (c / 10) (E + 1) else (c, E)
termination_by c
decreasing_by omega

/-- The fewest digits `c` and exponent `E` with `c · 10 ^ E` reading back as the finite,
non-zero double of these bits; `c` has no trailing zero. -/
def digits (bits : UInt64) : Nat × Int :=
  let b := Binary.ofBits bits
  let p := decimalExponent b
  match (List.range 17).findSome? fun i => withDigits b p (i + 1) with
  | some (c, E) => dropTrailingZeros c E
  | none => ((gridFloor b (p - 16)).1, p - 16)

end Shortest

end SeriesStore
