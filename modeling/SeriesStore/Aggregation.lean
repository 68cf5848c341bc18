import SeriesStore.Segment.Basic
import SeriesStore.Time.Instant

/-!
# Aggregating samples into buckets

An aggregate of raw samples keeps six slots per value column, in this order: first, last,
least, greatest, sum and count. An aggregate of samples that are themselves aggregates folds
slot `i` by the kind of slot `i mod 6`, so counts are summed. NaN values are passed over; first,
least and greatest start as NaN, sum and count as zero.

A whole segment can be folded through its column summaries instead of its samples; a column
with no live number is passed over.

A bucket `[start, end)` is stamped at its start for `first`, at its middle for `avg`, and at
its end for the other kinds.
-/

namespace SeriesStore

/-- Whether the samples aggregated are raw or already aggregated. -/
inductive AggregationMode where
  | fromRaw
  | fromAggregated
  deriving Repr, DecidableEq, Inhabited

/-- One slot of an aggregate, or what a query asks of a bucket; `average` is never a slot. -/
inductive AggregationKind where
  | first
  | last
  | min
  | max
  | sum
  | count
  | average
  deriving Repr, DecidableEq, Inhabited

namespace AggregationKind

/-- The six slots, in stored order. -/
def slots : List AggregationKind := [.first, .last, .min, .max, .sum, .count]

/-- Slots per raw value. -/
def slotCount : Nat := 6

/-- The kind of the `i`-th slot. -/
def ofSlot (i : Nat) : AggregationKind := slots.getD (i % slotCount) .first

/-- The name of a kind. -/
def name : AggregationKind → String
  | .first => "first"
  | .last => "last"
  | .min => "min"
  | .max => "max"
  | .sum => "sum"
  | .count => "count"
  | .average => "avg"

/-- The value a slot starts from. -/
def initial : AggregationKind → Double
  | .sum | .count => Double.zero
  | _ => Double.nan

/-- Fold a value into a slot. -/
def fold (k : AggregationKind) (slot v : Double) : Double :=
  match k with
  | .first => if slot.isNaN then v else slot
  | .last => v
  | .min => if slot.isNaN || Double.lt v slot then v else slot
  | .max => if slot.isNaN || Double.lt slot v then v else slot
  | .sum | .count | .average => (if slot.isNaN then Double.zero else slot) + v

/-- The value of one column from its six slots; the average is the sum over a positive count,
else NaN. -/
def select (k : AggregationKind) (slotValues : List Double) : Double :=
  let slot (j : AggregationKind) : Double :=
    match slots.idxOf? j with
    | some i => slotValues.getD i Double.nan
    | none => Double.nan
  match k with
  | .average =>
    let c := slot .count
    if Double.lt Double.zero c then slot .sum / c else Double.nan
  | k => slot k

/-- Half of a span of nanoseconds, divided as a count of whole seconds and nanoseconds
below a second: the seconds toward zero, their remainder carried into the nanoseconds, and the
nanoseconds brought back into `0..10^9`. -/
def halfSpan (d : Int) : Int :=
  let second := Instant.nanosPerSecond
  let secs := d / second
  let nanos := d % second
  let q := secs.tdiv 2
  let carry := secs.tmod 2
  let extra := (carry * second).tdiv 2
  let n := nanos.tdiv 2 + extra
  let (q, n) := if n < 0 then (q - 1, n + second) else if n ≥ second then (q + 1, n - second)
    else (q, n)
  q * second + n

/-- The instant a bucket `[start, end)` is reported at. -/
def stamp (k : AggregationKind) (start stop : Instant) : Instant :=
  match k with
  | .first => start
  | .average => ⟨start.nanos + halfSpan (stop.nanos - start.nanos)⟩
  | _ => stop

end AggregationKind

/-- The running aggregate of one bucket. -/
structure Aggregator where
  mode : AggregationMode
  values : List Double := []
  any : Bool := false
  deriving Inhabited

namespace Aggregator

/-- Grow the slots to cover `width` input values. -/
def ensureWidth (a : Aggregator) (width : Nat) : Aggregator :=
  let slots := match a.mode with
    | .fromRaw => width * AggregationKind.slotCount
    | .fromAggregated => width
  let n := a.values.length
  { a with values := a.values ++
      (List.range (slots - n)).map fun j => (AggregationKind.ofSlot (n + j)).initial }

/-- Fold `v` into slot `i` by kind `k`. -/
def foldAt (vs : List Double) (i : Nat) (k : AggregationKind) (v : Double) : List Double :=
  vs.modify i (k.fold · v)

/-- Fold one live sample. -/
def step (a : Aggregator) (values : List Double) : Aggregator :=
  let a := { a.ensureWidth values.length with any := true }
  let vs := values.zipIdx.foldl (fun vs (v, i) =>
    if v.isNaN then vs
    else match a.mode with
      | .fromRaw =>
        AggregationKind.slots.zipIdx.foldl (fun vs (k, o) =>
          foldAt vs (i * AggregationKind.slotCount + o) k
            (if k == .count then ⟨0x3ff0000000000000⟩ else v)) vs
      | .fromAggregated => foldAt vs i (AggregationKind.ofSlot i) v) a.values
  { a with values := vs }

/-- The summary value a slot of kind `k` takes from a column. -/
def summaryInput (mode : AggregationMode) (k : AggregationKind) (c : ColumnSummary) : Double :=
  match k with
  | .first => c.first
  | .last => c.last
  | .min => c.min
  | .max => c.max
  | .sum | .average => c.sum
  | .count => match mode with
    | .fromRaw => Double.ofNat c.count
    | .fromAggregated => c.sum

/-- Fold a whole segment through its column summaries. -/
def segment (a : Aggregator) (columns : List ColumnSummary) : Aggregator :=
  let a := a.ensureWidth columns.length
  columns.zipIdx.foldl (fun a (c, i) =>
    if c.count = 0 then a
    else
      let a := { a with any := true }
      match a.mode with
      | .fromRaw =>
        { a with values := AggregationKind.slots.zipIdx.foldl (fun vs (k, o) =>
            foldAt vs (i * AggregationKind.slotCount + o) k (summaryInput .fromRaw k c)) a.values }
      | .fromAggregated =>
        let k := AggregationKind.ofSlot i
        { a with values := foldAt a.values i k (summaryInput .fromAggregated k c) }) a

/-- The slots of the bucket, and the aggregate emptied for the next one. -/
def take (a : Aggregator) : List Double × Aggregator := (a.values, { a with values := [], any := false })

end Aggregator

end SeriesStore
