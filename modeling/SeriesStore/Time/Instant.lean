import SeriesStore.Time.Calendar

/-!
# Instants

An `Instant` is a point of time in nanoseconds from 1970-01-01T00:00:00 UTC, between the first
nanosecond of year -262143 and the last nanosecond of year 262142. Stored timestamps are whole
milliseconds; `Instant.ofMillis` moves a millisecond count outside the range to the nearest
end, and `Instant.millis` floors.

Text form: `2024-01-01 00:00:00.002 UTC`. The year has four digits when it lies in
`0..9999` and otherwise a sign and at least four digits; a fraction of a second is written
with three, six or nine digits, the fewest that hold it exactly, and not at all when it is
zero.

Adding months keeps the time of day and the day of the month, except that a day past the end
of the new month becomes its last day.
-/

namespace SeriesStore

/-- A point of time in nanoseconds from the epoch. -/
structure Instant where
  nanos : Int
  deriving Repr, DecidableEq, Inhabited

namespace Instant

/-- Nanoseconds of a millisecond, a second, a day. -/
def nanosPerMilli : Int := 1000000
def nanosPerSecond : Int := 1000000000
def nanosPerDay : Int := 86400 * 1000000000

/-- First and last year of the range. -/
def minYear : Int := -262143
def maxYear : Int := 262142

/-- Milliseconds of the first instant of the range. -/
def minMillis : Int := -8334601228800000

/-- Milliseconds of the last instant of the range, floored. -/
def maxMillis : Int := 8210266876799999

/-- The first instant. -/
def min : Instant := ⟨minMillis * nanosPerMilli⟩

/-- The last instant: the last nanosecond of year 262142. -/
def max : Instant := ⟨maxMillis * nanosPerMilli + 999999⟩

/-- The instant of a millisecond count, moved into the range. -/
def ofMillis (ms : Int) : Instant :=
  if ms < minMillis then min else if ms > maxMillis then max else ⟨ms * nanosPerMilli⟩

/-- Milliseconds from the epoch, floored. -/
def millis (t : Instant) : Int := t.nanos / nanosPerMilli

/-- Nanoseconds within the millisecond. -/
def subMillisNanos (t : Instant) : Nat := (t.nanos % nanosPerMilli).toNat

instance : LT Instant := ⟨fun a b => a.nanos < b.nanos⟩
instance : LE Instant := ⟨fun a b => a.nanos ≤ b.nanos⟩
instance (a b : Instant) : Decidable (a < b) := inferInstanceAs (Decidable (a.nanos < b.nanos))
instance (a b : Instant) : Decidable (a ≤ b) := inferInstanceAs (Decidable (a.nanos ≤ b.nanos))

/-- Whether an instant lies in the range. -/
def inRange (t : Instant) : Bool := min.nanos ≤ t.nanos && t.nanos ≤ max.nanos

/-- The instant moved by a number of nanoseconds, if it stays in the range. -/
def shift? (t : Instant) (nanos : Int) : Option Instant :=
  let u : Instant := ⟨t.nanos + nanos⟩
  if u.inRange then some u else none

/-- Civil date and nanoseconds of the day. -/
def civil (t : Instant) : (Int × Nat × Nat) × Nat :=
  (Calendar.civilOfDays (t.nanos / nanosPerDay), (t.nanos % nanosPerDay).toNat)

/-- The instant of a civil date and time of day, if its year is in the range. -/
def ofCivil? (y : Int) (m d : Nat) (nanosOfDay : Nat) : Option Instant :=
  if minYear ≤ y ∧ y ≤ maxYear then
    some ⟨Calendar.daysOfCivil y m d * nanosPerDay + nanosOfDay⟩
  else none

/-- The instant shifted by whole months; `none` when it leaves the range. -/
def addMonths? (t : Instant) (n : Int) : Option Instant :=
  if n = 0 then some t
  else
    let ((y, m, d), ns) := t.civil
    let total := y * 12 + ((m : Int) - 1) + n
    let y' := total / 12
    let m' := (total % 12).toNat + 1
    let d' := Nat.min d (Calendar.monthDays y' m')
    ofCivil? y' m' d' ns

/-- Zero-padded decimal digits. -/
def padded (width : Nat) (n : Nat) : String :=
  let s := toString n
  String.ofList (List.replicate (width - s.length) '0') ++ s

/-- The year as written: four digits in `0..9999`, else a sign and at least four digits. -/
def yearText (y : Int) : String :=
  if 0 ≤ y ∧ y ≤ 9999 then padded 4 y.toNat
  else (if y < 0 then "-" else "+") ++ padded 4 y.natAbs

/-- The fraction of a second: the fewest of three, six or nine digits, none for zero. -/
def fractionText (ns : Nat) : String :=
  if ns = 0 then ""
  else if ns % 1000000 = 0 then "." ++ padded 3 (ns / 1000000)
  else if ns % 1000 = 0 then "." ++ padded 6 (ns / 1000)
  else "." ++ padded 9 ns

/-- The text of an instant: date, time and `UTC`. -/
def render (t : Instant) : String :=
  let ((y, m, d), ns) := t.civil
  let secs := ns / 1000000000
  yearText y ++ "-" ++ padded 2 m ++ "-" ++ padded 2 d ++ " " ++
    padded 2 (secs / 3600) ++ ":" ++ padded 2 (secs / 60 % 60) ++ ":" ++ padded 2 (secs % 60) ++
    fractionText (ns % 1000000000) ++ " UTC"

end Instant

end SeriesStore
