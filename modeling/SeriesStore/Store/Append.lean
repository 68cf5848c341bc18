import SeriesStore.Store.Points
import SeriesStore.Store.Documents
import SeriesStore.Store.Schedule

/-!
# Appending samples

Samples are checked first, all of them, and a local write needs its document. They are then
prepared into points and written in runs: each run goes to the segment at or before its first
point (its *holder*), and stops before the baseline of the next segment. A run after the last
stored sample of the holder is appended to it while it fits, the rest opening new segments; any
other run is merged with the holder's points and the holder is packed anew from its baseline.
A run without a holder opens new segments.

Every segment written takes a new etag and a change vector: a local write stamps a new one, a
replicated write merges the remote vector into the segment's previous one (or takes it as is
for a new segment). A segment left without live samples is listed for purging. Replicated
points covered by a deleted range the remote has not seen are written dead.

The series' statistics follow the change in live samples, its name is listed on its document
while it has live samples, and the write is scheduled for rollup from its first point.
-/

namespace SeriesStore

/-- What a write to one series has done so far. -/
structure SeriesWrite where
  series : SeriesRef
  /-- The change vector of a replicated write. -/
  remote : Option String := none
  /-- Live samples gained, less those lost. -/
  liveDelta : Int := 0
  /-- The change vector of the last segment written. -/
  changeVector : Option String := none

namespace SeriesWrite

/-- Count live samples gained or lost. -/
def gain (w : SeriesWrite) (n : Int) : SeriesWrite := { w with liveDelta := w.liveDelta + n }

end SeriesWrite

/-- Check a series name. -/
def validateSeriesName (name : String) : Outcome Unit :=
  if (Text.trim name).isEmpty then .error (.invalidArgument "time series name cannot be empty")
  else if name.contains Key.separatorChar then
    .error (.invalidArgument ("time series name '" ++ name ++ "' contains a record separator"))
  else .ok ()

/-- Check a sample of a series: one to `maxWidth` values, no NaN unless allowed, a tag of at
most `maxTagLength` bytes, and a size that fits a segment alone. -/
def validateSample (name : String) (allowNan : Bool) (s : Sample) : Outcome Unit :=
  let n := s.values.length
  let stamp := s.time.render
  let tag := s.tag.map (·.toUTF8.toList)
  if n = 0 ∨ n > Segment.maxWidth then
    .error (.invalidValue ("a sample of '" ++ name ++ "' must have between 1 and " ++
      toString Segment.maxWidth ++ " values, got " ++ toString n))
  else if !allowNan && s.values.any Double.isNaN then
    .error (.invalidValue ("NaN is not a valid value for '" ++ name ++ "' at " ++ stamp))
  else if tag.any (·.length > Segment.maxTagLength) then
    .error (.invalidValue ("tag of '" ++ name ++ "' at " ++ stamp ++ " exceeds " ++
      toString Segment.maxTagLength ++ " bytes"))
  else if !Segment.fitsAlone s.values tag then
    .error (.invalidValue ("a sample of '" ++ name ++ "' at " ++ stamp ++ " with " ++ toString n ++
      " values does not fit into a " ++ toString Segment.maxSize ++ " byte segment"))
  else .ok ()

/-- The first live entry of a decoding; a failure before it is the answer. -/
def firstLive (d : Decoded) : Outcome (Option Entry) :=
  match d.entries.find? Entry.isLive, d.stop with
  | some e, _ => .ok (some e)
  | none, some st => .error (Segment.stopError st)
  | none, none => .ok none

/-- The last live timestamp of the latest segment, in a list greatest first, with a live
sample. -/
def lastLiveOf : List (Key × Row SegmentRow) → Outcome (Option Int)
  | [] => .ok none
  | (k, r) :: rest =>
    if r.value.segment.live = 0 then lastLiveOf rest
    else do
      let es ← r.value.segment.samples
      match (es.filter Entry.isLive).getLast? with
      | some e => pure (some ((Key.baselineOf k).getD 0 + e.offset))
      | none => lastLiveOf rest

namespace Tables

/-- The first and last live timestamps of the series under a prefix. The first is read from the
first segment with live samples, up to its first live sample; when it has none the series counts
as empty. The last is read from the latest segment holding a live sample, else it is the
first. -/
def liveBounds (t : Tables) (pre : Key) : Outcome (Option (Int × Int)) := do
  let rows := t.segments.withPrefix pre
  match rows.find? fun (_, r) => r.value.segment.live != 0 with
  | none => pure none
  | some (k, r) =>
    match ← firstLive r.value.segment.decode with
    | none => pure none
    | some e =>
      let start := (Key.baselineOf k).getD 0 + e.offset
      let upper := pre ++ List.replicate 9 0xFF
      match ← lastLiveOf (t.segments.seekBefore pre upper) with
      | some stop => pure (some (start, stop))
      | none => pure (some (start, start))

end Tables

namespace Txn

/-- Store a segment under a key with a new etag. -/
def putSegment (w : SeriesWrite) (key : Key) (s : Segment) (previous : Option String) :
    Txn SeriesWrite := do
  let etag ← nextEtag
  let cv ← match w.remote, previous with
    | none, _ => newChangeVector etag
    | some r, some p => lift (mergeVectors p r)
    | some r, none => pure r
  let row : SegmentRow := { series := w.series, etag, changeVector := cv, segment := s }
  if s.live = 0 then
    let list := fun (p : Table Key) => (p.insert (Tables.pendingKey etag) key none).1
    change fun t => { t with pending := Tables.updateCollection t.pending w.series.collection list }
  change fun t => { t with segments := (t.segments.insert key row (some etag)).1 }
  pure { w with changeVector := some cv }

/-- Store packed segments under their baselines. -/
def putPacked (w : SeriesWrite) (segments : List (Int × Segment)) (previous : Option String) :
    Txn SeriesWrite :=
  segments.foldlM (fun w (b, s) =>
    putSegment (w.gain s.live) (Key.segmentOfPrefix w.series.pre b) s previous) w

/-- Open new segments for points. -/
def writeNewSegments (w : SeriesWrite) (ps : List Point) : Txn SeriesWrite := do
  putPacked w (← lift (Point.build ps none)) none

/-- Append points to a segment while they fit; the segment and how many were taken. -/
def appendWhileFits (s : Segment) (baseline : Int) : List Point → Except Fault (Segment × Nat)
  | [] => .ok (s, 0)
  | p :: ps => do
    match ← p.appendTo s baseline with
    | none => pure (s, 0)
    | some s' =>
      let (s'', n) ← appendWhileFits s' baseline ps
      pure (s'', n + 1)

/-- A run after the holder's last sample: append what fits, open new segments for the rest. -/
def appendInOrder (w : SeriesWrite) (key : Key) (row : SegmentRow) (baseline : Int)
    (run : List Point) : Txn SeriesWrite := do
  let (updated, n) ← liftFault (appendWhileFits row.segment baseline run)
  let w ← if n > 0 then
      putSegment (w.gain ((updated.live : Int) - row.segment.live)) key updated
        (some row.changeVector)
    else pure w
  if n < run.length then writeNewSegments w (run.drop n) else pure w

/-- A run among the holder's samples: merge and pack the holder anew from its baseline. -/
def splitSegment (w : SeriesWrite) (key : Key) (row : SegmentRow) (baseline : Int)
    (run : List Point) : Txn SeriesWrite := do
  let stored ← lift row.segment.samples
  let merged := Point.merge w.remote.isSome (stored.map (Point.ofEntry baseline)) run
  let packed ← lift (Point.build merged (some (baseline, row.segment.width)))
  change fun t => { t with segments := (t.segments.remove key).1 }
  putPacked (w.gain (-(row.segment.live : Int))) packed (some row.changeVector)

/-- The fault of an empty run, which moves a write on by nothing. With no holder, or a holder
with no samples, the write would take the same empty run again and again and never return; a
holder with samples reads the run's first point, which is not there. -/
def emptyRunFault (holder : Option (Key × Row SegmentRow)) : Fault :=
  match holder with
  | some (_, row) => if row.value.segment.isEmpty then .stuck else .outOfBounds
  | none => .stuck

/-- Write prepared points run by run. A run that would be empty cannot be written: the
points at the last instant of the range have no room after a segment. -/
def writeRuns (w : SeriesWrite) (ps : List Point) : Txn SeriesWrite :=
  match ps with
  | [] => pure w
  | p :: more => do
    let pre := w.series.pre
    let seekKey := Key.segmentOfPrefix pre p.ms
    let t ← tables
    let holder := t.segments.seekBackward pre seekKey
    let nextBaseline := (((t.segments.seekAfter pre seekKey).head?).bind
      fun (k, _) => Key.baselineOf k).getD Instant.maxMillis
    let run := (p :: more).takeWhile (·.ms < nextBaseline)
    match run with
    | [] => throw (.fault (emptyRunFault holder))
    | q :: qs =>
      let w ← match holder with
        | none => writeNewSegments w (q :: qs)
        | some (key, row) =>
          let baseline := (Key.baselineOf key).getD 0
          if row.value.segment.isEmpty || q.ms > row.value.segment.lastTimestamp baseline then
            appendInOrder w key row.value baseline (q :: qs)
          else splitSegment w key row.value baseline (q :: qs)
      writeRuns w ((p :: more).drop (qs.length + 1))
termination_by ps.length
decreasing_by simp only [List.length_drop, List.length_cons]; omega

/-- Bring a series' statistics up to date after a change in live samples; the new count comes
back. -/
def updateStats (s : SeriesRef) (liveDelta : Int) : Txn Nat := do
  let t ← tables
  let previous := ((t.stats? s.collection s.doc s.name).map (·.count)).getD 0
  let count := ((previous : Int) + liveDelta).toNat
  let bounds ← if count > 0 then lift (t.liveBounds s.pre) else pure none
  match bounds with
  | some (start, stop) =>
    change fun t => t.putStats
      { series := s, policy := policyOfSeries s.name, count, startMs := start, endMs := stop }
    pure count
  | none =>
    change fun t => t.removeStats s
    pure 0

/-- List a series name on its document. -/
def addSeriesName (doc name : String) : Txn Bool := do
  let (t, b) ← lift ((← tables).addSeriesName doc name)
  set t
  pure b

/-- Take a series name off its document. -/
def removeSeriesName (doc name : String) : Txn Bool := do
  let (t, b) ← lift ((← tables).removeSeriesName doc name)
  set t
  pure b

/-- Keep the document's list of names in step with the series' live count. -/
def syncSeriesName (s : SeriesRef) (count : Nat) : Txn Unit := do
  if count > 0 then discard (addSeriesName s.doc s.name)
  else discard (removeSeriesName s.doc s.name)

/-- The deleted ranges of a series that a remote change vector has not seen. -/
def unseenTombstones (pre : Key) (remote : String) : Txn (List Tombstone) := do
  let rows := (← tables).tombstones.withPrefix pre
  rows.filterMapM fun (_, r) => do
    let st ← lift (conflictStatus r.value.changeVector remote)
    pure (if st != .alreadyMerged then some r.value else none)

/-- Mark dead the replicated points that a deleted range unseen by the remote covers. -/
def suppressDeleted (pre : Key) (remote : String) (ps : List Point) : Txn (List Point) := do
  let ts ← unseenTombstones pre remote
  if ts.isEmpty then pure ps
  else pure (ps.map fun p => if ts.any (·.covers p.ms) then { p with status := .dead } else p)

/-- Append samples to a series. A replicated write carries the remote change vector and keeps
the samples' statuses. The change vector of the last segment written comes back. -/
def appendSamples (s : SeriesRef) (samples : List Sample) (remote : Option String)
    (allowNan : Bool) : Txn (Option String) := do
  lift (Key.validateDocumentId s.doc)
  lift (validateSeriesName s.name)
  for x in samples do lift (validateSample s.name allowNan x)
  if remote.isNone && !(← tables).hasDocument s.doc then
    throw (.notFound ("cannot append to time series '" ++ s.name ++ "' of missing document '" ++
      s.doc ++ "'"))
  let ps := Point.prepare (samples.map (Point.ofSample remote.isSome))
  match ps with
  | [] => pure none
  | first :: _ =>
    let ps ← match remote with
      | some r => do
        observeChangeVector r
        suppressDeleted s.pre r ps
      | none => pure ps
    let w ← writeRuns { series := s, remote } ps
    syncSeriesName s (← updateStats s w.liveDelta)
    markForPolicy s first.ms .live
    pure w.changeVector

end Txn

end SeriesStore
