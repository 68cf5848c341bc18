import SeriesStore.Error
import SeriesStore.Number.Word
import SeriesStore.Text.Lower
import SeriesStore.Time.Instant

/-!
# Spans of time

A `Span` is a fixed number of milliseconds or a number of calendar months. The span of
`2 ^ 63 - 1` milliseconds stands for *infinite*.

Text: an amount and a unit (`30 min`, `1mon`, `2y`), blanks and case not mattering, or one of
`infinite`, `infinity`, `forever`; a bare amount counts seconds. Weeks, days, hours, minutes and
seconds become milliseconds, quarters and years become months. The amount times the unit's
factor must fit 64 bits and be neither end of the range, and a month count is at most
`120000` in size. The written form uses the largest unit that divides the value (`1d`, `90s`,
`2y`, `5mon`), `infinite` for the infinite span.

Order: the infinite span is the greatest; spans of one unit compare by amount; a month span
and a millisecond span compare by an average month of `2629746000` ms, the month span being
the greater on a tie.

Adding a fixed span to a millisecond count stops at the ends of the 64-bit range; adding
months moves the calendar date (`Instant.addMonths?`) and stops at the ends of the range of
instants.
-/

namespace SeriesStore

/-- The unit of a span. -/
inductive SpanUnit where
  | millis
  | months
  deriving Repr, DecidableEq, Inhabited

/-- A fixed or calendar span of time. -/
structure Span where
  value : Int
  unit : SpanUnit
  deriving Repr, DecidableEq, Inhabited

namespace Span

def msPerSecond : Int := 1000
def msPerMinute : Int := 60000
def msPerHour : Int := 3600000
def msPerDay : Int := 86400000

/-- An average Gregorian month, used only to order months against milliseconds. -/
def approxMsPerMonth : Int := 2629746000

/-- The largest month count accepted. -/
def maxMonths : Int := 120000

/-- No time. -/
def zero : Span := ⟨0, .millis⟩

/-- The infinite span. -/
def infinite : Span := ⟨I64.max, .millis⟩

/-- A span of milliseconds. -/
def ofMillis (ms : Int) : Span := ⟨ms, .millis⟩

/-- A span of months. -/
def ofMonths (n : Int) : Span := ⟨n, .months⟩

/-- Whether the span is the infinite one. -/
def isInfinite (s : Span) : Bool := s == infinite

/-- Whether the amount is positive. -/
def isPositive (s : Span) : Bool := s.value > 0

/-- Whether the span counts months. -/
def isMonths (s : Span) : Bool := s.unit == .months

/-- Milliseconds, an average for months. -/
def approxMillis (s : Span) : Int :=
  match s.unit with
  | .millis => s.value
  | .months => I64.mulSat s.value approxMsPerMonth

/-- Compare two spans. -/
def compare (a b : Span) : Ordering :=
  match a.isInfinite, b.isInfinite with
  | true, true => .eq
  | true, false => .gt
  | false, true => .lt
  | false, false =>
    if a.unit == b.unit then Ord.compare a.value b.value
    else
      match Ord.compare a.approxMillis b.approxMillis with
      | .eq => Ord.compare (if a.isMonths then 1 else 0 : Nat) (if b.isMonths then 1 else 0)
      | o => o

instance : Ord Span := ⟨compare⟩

/-- Whether `a` is shorter than `b`. -/
def lt (a b : Span) : Bool := compare a b == .lt

/-- The text of a span. -/
def render (s : Span) : String :=
  if s.isInfinite then "infinite"
  else
    let v := s.value
    match s.unit with
    | .months => if v % 12 == 0 && v != 0 then toString (v / 12) ++ "y" else toString v ++ "mon"
    | .millis =>
      if v != 0 && v % msPerDay == 0 then toString (v / msPerDay) ++ "d"
      else if v != 0 && v % msPerHour == 0 then toString (v / msPerHour) ++ "h"
      else if v != 0 && v % msPerMinute == 0 then toString (v / msPerMinute) ++ "min"
      else if v != 0 && v % msPerSecond == 0 then toString (v / msPerSecond) ++ "s"
      else toString v ++ "ms"

/-- The factor and unit of a unit word. -/
def unitOf? (w : String) : Option (Int × SpanUnit) :=
  match w with
  | "ms" | "milli" | "millis" | "millisecond" | "milliseconds" => some (1, .millis)
  | "" | "s" | "sec" | "secs" | "second" | "seconds" => some (msPerSecond, .millis)
  | "m" | "min" | "mins" | "minute" | "minutes" => some (msPerMinute, .millis)
  | "h" | "hour" | "hours" => some (msPerHour, .millis)
  | "d" | "day" | "days" => some (msPerDay, .millis)
  | "w" | "week" | "weeks" => some (7 * msPerDay, .millis)
  | "mon" | "month" | "months" => some (1, .months)
  | "q" | "quarter" | "quarters" => some (3, .months)
  | "y" | "year" | "years" => some (12, .months)
  | _ => none

/-- Read a span from its text. -/
def parse (s : String) : Outcome Span :=
  let text := Text.lower (Text.trim s)
  if text == "infinite" || text == "infinity" || text == "forever" then .ok infinite
  else
    let cs := text.toList
    let amount := cs.takeWhile fun c => c.isDigit || c == '-'
    let rest := String.ofList (cs.dropWhile fun c => c.isDigit || c == '-')
    match I64.parse? (String.ofList amount) with
    | none => .error (.invalidArgument ("invalid duration '" ++ s ++ "'"))
    | some n =>
      let unit := Text.trim rest
      match unitOf? unit with
      | none => .error (.invalidArgument ("unknown duration unit '" ++ unit ++ "' in '" ++ s ++ "'"))
      | some (factor, u) =>
        match I64.mul? n factor with
        | some v =>
          if v == I64.max || v == I64.min then
            .error (.invalidArgument ("duration '" ++ s ++ "' is out of range"))
          else if u == .months && v.natAbs > maxMonths.toNat then
            .error (.invalidArgument
              ("duration '" ++ s ++ "' exceeds " ++ toString maxMonths ++ " months"))
          else .ok ⟨v, u⟩
        | none => .error (.invalidArgument ("duration '" ++ s ++ "' is out of range"))

/-- The instant plus the span, stopping at the ends of the range. -/
def addTo (s : Span) (t : Instant) : Instant :=
  if s.isInfinite then Instant.max
  else match s.unit with
    | .millis => Instant.ofMillis (I64.addSat t.millis s.value)
    | .months => (t.addMonths? s.value).getD (if s.value ≥ 0 then Instant.max else Instant.min)

/-- The instant minus the span, stopping at the ends of the range. -/
def subtractFrom (s : Span) (t : Instant) : Instant :=
  if s.isInfinite then Instant.min
  else match s.unit with
    | .millis => Instant.ofMillis (I64.subSat t.millis s.value)
    | .months =>
      (t.addMonths? (-s.value)).getD (if -s.value ≥ 0 then Instant.max else Instant.min)

/-- A millisecond count plus the span. -/
def addToMillis (s : Span) (ms : Int) : Int :=
  if s.unit == .millis && !s.isInfinite then I64.addSat ms s.value
  else (s.addTo (Instant.ofMillis ms)).millis

/-- A millisecond count minus the span. -/
def subtractFromMillis (s : Span) (ms : Int) : Int :=
  if s.unit == .millis && !s.isInfinite then I64.subSat ms s.value
  else (s.subtractFrom (Instant.ofMillis ms)).millis

end Span

end SeriesStore
