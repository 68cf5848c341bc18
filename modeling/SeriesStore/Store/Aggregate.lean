import SeriesStore.Store.Reader
import SeriesStore.Aggregation
import SeriesStore.Time.Buckets

/-!
# Aggregating a window into buckets

The live samples of a window are aggregated bucket by bucket of a grid. A segment taken whole
that ends inside the bucket where it starts is folded from its column summaries without
decoding; any other is decoded and folded sample by sample. A bucket that received something is
closed when a sample falls past it.

Each bucket yields one sample: `aggregatedValues` stamps it one millisecond before the next
bucket starts and keeps all its slots; `aggregatedByKind` keeps one kind per column and stamps it
as the kind says.
-/

namespace SeriesStore

/-- A closed bucket: its start, the start of the next, and its slots. -/
structure Bucket where
  startMs : Int
  endMs : Int
  values : List Double

/-- Buckets being filled. -/
structure Bucketing where
  grid : BucketGrid
  startMs : Int := I64.min
  nextMs : Int := I64.min
  current : Aggregator
  closed : List Bucket := []

namespace Bucketing

/-- Close the current bucket if it received something. -/
def flush (b : Bucketing) : Bucketing :=
  if b.current.any then
    let (values, a) := b.current.take
    { b with current := a, closed := b.closed ++ [⟨b.startMs, b.nextMs, values⟩] }
  else b

/-- Move to the bucket holding a timestamp, closing the current one when the timestamp is past
it. -/
def moveTo (b : Bucketing) (ms : Int) : Outcome Bucketing :=
  if ms < b.nextMs then .ok b
  else
    let b := b.flush
    match b.grid.start ms with
    | .ok s => .ok { b with startMs := s, nextMs := b.grid.nextStart s }
    | .error f => .error (.fault f)

/-- Fold one sample's values at a timestamp. -/
def addSample (b : Bucketing) (ms : Int) (values : List Double) : Outcome Bucketing := do
  let b ← b.moveTo ms
  pure { b with current := b.current.step values }

/-- Fold one item of a window. -/
def addItem (b : Bucketing) : SegmentOrValues → Outcome Bucketing
  | .whole s =>
    if s.segment.live = 0 then .ok b
    else do
      let b ← b.moveTo s.startMs
      if s.endMs < b.nextMs then pure { b with current := b.current.segment s.segment.columns }
      else
        let samples ← s.samples
        (samples.filter fun (_, e) => e.isLive).foldlM (fun b (ms, e) => b.addSample ms e.values) b
  | .values samples => samples.foldlM (fun b x => b.addSample x.time.millis x.values) b

end Bucketing

namespace SeriesWindow

/-- The buckets of the window's live samples. -/
def buckets (w : SeriesWindow) (t : Tables) (grid : BucketGrid) (mode : AggregationMode) :
    Outcome (List Bucket) := do
  let b ← (w.segmentsOrValues t).foldlM (fun b item => do b.addItem (← item))
    ({ grid, current := { mode } } : Bucketing)
  pure b.flush.closed

/-- One sample per bucket, stamped a millisecond before the next bucket, with all its slots. -/
def aggregatedValues (w : SeriesWindow) (t : Tables) (grid : BucketGrid) (mode : AggregationMode) :
    Outcome (List Sample) := do
  let bs ← w.buckets t grid mode
  pure (bs.map fun b => { time := Instant.ofMillis (b.endMs - 1), values := b.values })

/-- Slots in groups of one column each. -/
def columnSlots (values : List Double) : List (List Double) :=
  (List.range ((values.length + AggregationKind.slotCount - 1) / AggregationKind.slotCount)).map
    fun i => (values.drop (i * AggregationKind.slotCount)).take AggregationKind.slotCount

/-- One sample per bucket of raw samples, keeping one kind per column, stamped as the kind
says. -/
def aggregatedByKind (w : SeriesWindow) (t : Tables) (grid : BucketGrid) (k : AggregationKind) :
    Outcome (List Sample) := do
  let bs ← w.buckets t grid .fromRaw
  pure (bs.map fun b =>
    { time := k.stamp (Instant.ofMillis b.startMs) (Instant.ofMillis b.endMs),
      values := (columnSlots b.values).map k.select })

end SeriesWindow

end SeriesStore
