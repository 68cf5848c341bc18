import SeriesStore.Store.Rows

/-!
# Reading a window of a series

A `SeriesWindow` reads the samples of one series from `fromMs` to `toMs`, both included,
optionally moving every reported instant by an offset. It visits the segments that can hold
samples of the window in baseline order: the last one starting at or before the window, then
those starting inside it, each kept only if its last sample is not before the window.

Readings stop at the first failure in visiting order: a segment whose samples cannot be
decoded, or an offset that moves an instant out of the range of instants. A reading that needs
only a first answer visits segments until it has one, and meets no failure past that point.
-/

namespace SeriesStore

/-- A stored segment met by a reader. -/
structure StoredSegment where
  key : Key
  baseline : Int
  etag : Int
  changeVector : String
  segment : Segment

namespace StoredSegment

/-- The first timestamp the segment may hold. -/
def startMs (s : StoredSegment) : Int := s.baseline

/-- The timestamp of its last sample. -/
def endMs (s : StoredSegment) : Int := s.segment.lastTimestamp s.baseline

/-- The samples with their timestamps, dead ones included. -/
def samples (s : StoredSegment) : Outcome (List (Int × Entry)) := do
  let es ← s.segment.samples
  pure (es.map fun e => (s.baseline + e.offset, e))

end StoredSegment

/-- A segment taken whole, or the live samples of the window in one. -/
inductive SegmentOrValues where
  | whole (s : StoredSegment)
  | values (samples : List Sample)

/-- Live count and, per column, the least and greatest number of a window. -/
structure WindowSummary where
  count : Nat := 0
  min : List Double := []
  max : List Double := []

namespace WindowSummary

/-- Set position `i` of a list, growing it with NaN. -/
def setAt (xs : List Double) (i : Nat) (v : Double) : List Double :=
  (xs ++ List.replicate (i + 1 - xs.length) Double.nan).set i v

/-- Take a value of column `i` into the bounds; NaN is passed over. -/
def fold (s : WindowSummary) (i : Nat) (v : Double) : WindowSummary :=
  if v.isNaN then s
  else
    let lo := s.min.getD i Double.nan
    let hi := s.max.getD i Double.nan
    let lo := if lo.isNaN || v.lt lo then v else lo
    let hi := if hi.isNaN || hi.lt v then v else hi
    { s with min := setAt s.min i lo, max := setAt s.max i hi }

end WindowSummary

/-- The window of a series that a reader reads. -/
structure SeriesWindow where
  pre : Key
  fromMs : Int
  toMs : Int
  /-- Milliseconds added to every reported instant. -/
  offset : Option Int := none

namespace SeriesWindow

/-- The window of a series by document and name. -/
def ofSeries (doc name : String) (fromMs toMs : Int) (offset : Option Int) : SeriesWindow :=
  { pre := Key.seriesPrefix doc name, fromMs, toMs, offset }

/-- Whether a timestamp is in the window. -/
def holds (w : SeriesWindow) (ms : Int) : Bool := w.fromMs ≤ ms && ms ≤ w.toMs

/-- The segments that can hold samples of the window, in baseline order. -/
def segments (w : SeriesWindow) (t : Tables) : List StoredSegment :=
  if w.fromMs > w.toMs then []
  else
    let fromKey := Key.segmentOfPrefix w.pre w.fromMs
    let start := ((t.segments.seekBackward w.pre fromKey).map (·.1)).getD fromKey
    let rows := (t.segments.seekForward w.pre start).filterMap fun (k, r) =>
      (Key.baselineOf k).map fun b => (k, r, b)
    (rows.takeWhile fun (_, _, b) => b ≤ w.toMs).filterMap fun (k, r, b) =>
      let s : StoredSegment :=
        { key := k, baseline := b, etag := r.value.etag, changeVector := r.value.changeVector,
          segment := r.value.segment }
      if s.endMs < w.fromMs then none else some s

/-- The reported sample of an entry at a timestamp: the offset moves its instant, and an
instant moved out of range is a fault. -/
def report (w : SeriesWindow) (ms : Int) (e : Entry) : Outcome Sample :=
  let t := Instant.ofMillis ms
  match w.offset with
  | none => .ok (Sample.ofEntry t e)
  | some o =>
    match t.shift? (o * Instant.nanosPerMilli) with
    | some moved => .ok (Sample.ofEntry moved e)
    | none => .error (.fault .overflow)

/-- The live samples of the window in one segment. -/
def liveIn (w : SeriesWindow) (s : StoredSegment) : Outcome (List Sample) := do
  let samples ← s.samples
  (samples.filter fun (ms, e) => e.isLive && w.holds ms).mapM fun (ms, e) => w.report ms e

/-- The live samples of the window, segment by segment. -/
def chunks (w : SeriesWindow) (t : Tables) : List (Outcome (List Sample)) :=
  (w.segments t).map w.liveIn

/-- All live samples of the window. -/
def values (w : SeriesWindow) (t : Tables) : Outcome (List Sample) := do
  let cs ← (w.chunks t).mapM id
  pure cs.flatten

/-- The first live sample, from the first segment that has one. -/
def firstOf : List (Outcome (List Sample)) → Outcome (Option Sample)
  | [] => .ok none
  | .error e :: _ => .error e
  | .ok [] :: rest => firstOf rest
  | .ok (x :: _) :: _ => .ok (some x)

/-- The first live sample of the window. -/
def first (w : SeriesWindow) (t : Tables) : Outcome (Option Sample) := firstOf (w.chunks t)

/-- Whether the window has a live sample. -/
def any (w : SeriesWindow) (t : Tables) : Outcome Bool := do
  pure (← w.first t).isSome

/-- The last live sample of the window. -/
def last (w : SeriesWindow) (t : Tables) : Outcome (Option Sample) := do
  pure (← w.values t).getLast?

/-- A segment lying inside the window, taken whole when no offset applies, or its live samples
in the window. -/
def segmentOrValues (w : SeriesWindow) (s : StoredSegment) : Outcome SegmentOrValues :=
  if w.fromMs ≤ s.startMs && s.endMs ≤ w.toMs && w.offset.isNone then .ok (.whole s)
  else do pure (.values (← w.liveIn s))

/-- Whole segments where they lie inside the window, samples otherwise. -/
def segmentsOrValues (w : SeriesWindow) (t : Tables) : List (Outcome SegmentOrValues) :=
  (w.segments t).map w.segmentOrValues

/-- Take one item into a summary. -/
def summarize (acc : Option WindowSummary) : SegmentOrValues → Option WindowSummary
  | .whole s =>
    if s.segment.live = 0 then acc
    else
      let cur := (acc.getD {})
      let cur := { cur with count := cur.count + s.segment.live }
      some (s.segment.columns.zipIdx.foldl (fun cur (c, i) =>
        if c.count > 0 then (cur.fold i c.min).fold i c.max else cur) cur)
  | .values samples =>
    samples.foldl (fun acc x =>
      let cur := acc.getD {}
      let cur := { cur with count := cur.count + 1 }
      some (x.values.zipIdx.foldl (fun cur (v, i) => cur.fold i v) cur)) acc

/-- Count, least and greatest values per column over the live samples of the window; `none`
when there are none. -/
def summary (w : SeriesWindow) (t : Tables) : Outcome (Option WindowSummary) := do
  let items ← (w.segmentsOrValues t).mapM id
  pure (items.foldl summarize none)

/-- The change vector of the first segment with a live sample in the window. -/
def firstChangeVectorOf (w : SeriesWindow) : List StoredSegment → Outcome (Option String)
  | [] => .ok none
  | s :: rest => do
    let samples ← s.samples
    if samples.any fun (ms, e) => e.isLive && w.holds ms then pure (some s.changeVector)
    else firstChangeVectorOf w rest

/-- The change vector of the first segment holding a live sample of the window. -/
def firstChangeVector (w : SeriesWindow) (t : Tables) : Outcome (Option String) :=
  w.firstChangeVectorOf (w.segments t)

end SeriesWindow

end SeriesStore
