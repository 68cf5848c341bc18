import SeriesStore.Error

/-!
# Signed 64-bit arithmetic

Timestamps, etags and offsets of the store are signed 64-bit numbers. They are kept as `Int`;
an operation whose exact result leaves the 64-bit range has no answer and is a `Fault`, and a
saturating operation stops at the nearest end of the range.
-/

namespace SeriesStore

namespace I64

/-- Least signed 64-bit number. -/
def min : Int := -2 ^ 63

/-- Greatest signed 64-bit number. -/
def max : Int := 2 ^ 63 - 1

/-- Whether a number is in the signed 64-bit range. -/
def fits (x : Int) : Bool := min ≤ x && x ≤ max

/-- The number itself when it fits, else an overflow. -/
def check (x : Int) : Except Fault Int := if fits x then .ok x else .error .overflow

/-- Sum, or an overflow. -/
def add (a b : Int) : Except Fault Int := check (a + b)

/-- Difference, or an overflow. -/
def sub (a b : Int) : Except Fault Int := check (a - b)

/-- Product, or an overflow. -/
def mul (a b : Int) : Except Fault Int := check (a * b)

/-- Sum, or `none` when it leaves the range. -/
def add? (a b : Int) : Option Int := if fits (a + b) then some (a + b) else none

/-- Difference, or `none` when it leaves the range. -/
def sub? (a b : Int) : Option Int := if fits (a - b) then some (a - b) else none

/-- Product, or `none` when it leaves the range. -/
def mul? (a b : Int) : Option Int := if fits (a * b) then some (a * b) else none

/-- The nearest number of the range. -/
def clamp (x : Int) : Int := if x < min then min else if x > max then max else x

/-- Sum, stopping at the ends of the range. -/
def addSat (a b : Int) : Int := clamp (a + b)

/-- Difference, stopping at the ends of the range. -/
def subSat (a b : Int) : Int := clamp (a - b)

/-- Product, stopping at the ends of the range. -/
def mulSat (a b : Int) : Int := clamp (a * b)

/-- Read a signed 64-bit number: an optional `+` or `-`, then one or more ASCII digits, the
value in range. -/
def parse? (s : String) : Option Int :=
  let (negative, digits) := match s.toList with
    | '-' :: rest => (true, rest)
    | '+' :: rest => (false, rest)
    | cs => (false, cs)
  if digits.isEmpty || !digits.all Char.isDigit then none
  else
    let n : Nat := digits.foldl (fun acc c => acc * 10 + (c.toNat - 48)) 0
    let v : Int := if negative then -(n : Int) else n
    if fits v then some v else none

end I64

/-- Lift a fault into the library's failures. -/
def Except.ofFault {α : Type} : Except Fault α → Outcome α
  | .ok a => .ok a
  | .error f => .error (.fault f)

end SeriesStore
