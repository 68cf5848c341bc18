/-!
# Instances on the natural numbers

A power in this library is core's power by a natural exponent, reached through `instPowNat`,
also where the exponent is a numeral and the instance is found by default; a sum of natural
numbers starts from the numeral `0`. Mathlib reaches the same functions and the same zero
through its algebraic structures. Giving these instances priority makes `2 ^ n` and
`List.sum` elaborate to one term whether or not Mathlib is loaded.
-/

attribute [instance (10001)] instPowNat

attribute [default_instance (10001)] instPowNat

namespace SeriesStore

/-- Zero of the natural numbers as the numeral `0`. -/
instance (priority := 10001) natZero : Zero Nat := Zero.ofOfNat0

end SeriesStore
