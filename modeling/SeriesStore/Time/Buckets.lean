import SeriesStore.Time.Span

/-!
# Buckets of time

A `BucketGrid` cuts the time line into consecutive buckets of one positive, finite span.
Buckets of milliseconds start at the multiples of the step; buckets of months start at the
first instant of a month whose count from year 0 is a multiple of the step. `start t` is the
start of the bucket holding `t`, `nextStart s` the start of the bucket after the one starting at
`s`, and `nextAfter t` the start of the bucket after the one holding `t`.

For milliseconds, `start` multiplies back the floored quotient, which has no 64-bit answer for
timestamps near the ends of the range: a `Fault`.
-/

namespace SeriesStore

/-- A cut of the time line into buckets of one span. -/
structure BucketGrid where
  step : Span
  deriving Repr, DecidableEq, Inhabited

namespace BucketGrid

/-- A grid of a positive, finite step. -/
def ofSpan (step : Span) : Outcome BucketGrid :=
  if !step.isPositive || step.isInfinite then
    .error (.invalidArgument ("range step must be positive and finite, got " ++ step.render))
  else .ok ⟨step⟩

/-- The first instant of a month counted from year 0, if it is in the range. -/
def monthStart? (total : Int) : Option Instant :=
  Instant.ofCivil? (total / 12) ((total % 12).toNat + 1) 1 0

/-- Start of the bucket holding `t`. -/
def start (g : BucketGrid) (t : Int) : Except Fault Int :=
  match g.step.unit with
  | .millis => I64.mul (t / g.step.value) g.step.value
  | .months =>
    let ((y, m, _), _) := (Instant.ofMillis t).civil
    let total := y * 12 + ((m : Int) - 1)
    let first := total / g.step.value * g.step.value
    .ok (((monthStart? first).map Instant.millis).getD Instant.minMillis)

/-- Start of the bucket after the one starting at `s`. -/
def nextStart (g : BucketGrid) (s : Int) : Int :=
  match g.step.unit with
  | .millis => I64.addSat s g.step.value
  | .months => (g.step.addTo (Instant.ofMillis s)).millis

/-- Start of the bucket after the one holding `t`. -/
def nextAfter (g : BucketGrid) (t : Int) : Except Fault Int := do
  pure (g.nextStart (← g.start t))

end BucketGrid

end SeriesStore
