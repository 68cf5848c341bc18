import SeriesStore.Store.Append

/-!
# Deleting ranges of samples

A deletion of the samples of a series from `fromMs` to `toMs` (both included) first writes a
deleted range (a *tombstone*) under a new etag, whether or not a stored sample matches: local
deletions stamp a new change vector, replicated ones carry the remote one. Then every segment
that can hold samples of the range, from the last one starting at or before it, is encoded anew
with the live samples of the range made dead, unless the deletion's vector has already seen the
segment's. A segment lying wholly inside the range shrinks to one dead sample.

When a sample was removed, the statistics follow, the series name leaves its document once no
live sample is left, and the deletion is scheduled for rollup from the earliest removed
sample.
-/

namespace SeriesStore

/-- The segment with its live samples in `[fromMs, toMs]` made dead, and the first of them;
`none` when no live sample is in the range. -/
def killRange (s : Segment) (baseline fromMs toMs : Int) : Outcome (Option (Segment × Int)) := do
  let entries ← s.samples
  let inRange := fun (e : Entry) => fromMs ≤ baseline + e.offset && baseline + e.offset ≤ toMs
  match entries.find? fun e => e.isLive && inRange e with
  | none => pure none
  | some first =>
    let removed := baseline + first.offset
    let empty ← Segment.ofWidth s.width
    if fromMs ≤ baseline && s.lastTimestamp baseline ≤ toMs then
      match empty.append 0 [] none .dead with
      | .ok (some one) => pure (some (one, removed))
      | .ok none => pure (some (empty, removed))
      | .error f => throw (.fault f)
    else
      let reencoded ← entries.foldlM (fun acc e => do
        let status := if inRange e then Status.dead else e.status
        match acc.append e.offset e.values e.tag status with
        | .ok (some acc') => pure acc'
        | .ok none => throw (.internal ("re-encoding segment at " ++ toString baseline ++
            " overflowed"))
        | .error f => throw (.fault f)) empty
      pure (some (reencoded, removed))

namespace Txn

/-- Encode anew the segments under the keys given, in order, for a deletion with change vector
`cv`: stop past the range. The write and the earliest removed sample come back. -/
def deleteInSegments (cv : String) (fromMs toMs : Int) :
    List Key → SeriesWrite → Option Int → Txn (SeriesWrite × Option Int)
  | [], w, earliest => pure (w, earliest)
  | key :: keys, w, earliest => do
    let baseline := (Key.baselineOf key).getD 0
    if baseline > toMs then return (w, earliest)
    let some row := (← tables).segments.get? key | return (w, earliest)
    let stored := row.value
    let stop := stored.segment.lastTimestamp baseline
    let untouched ← if stop < fromMs then pure true
      else do pure ((← lift (conflictStatus cv stored.changeVector)) == .alreadyMerged)
    let (w, earliest) ← if untouched then pure (w, earliest)
      else match ← lift (killRange stored.segment baseline fromMs toMs) with
        | none => pure (w, earliest)
        | some (reencoded, removed) => do
          let w := w.gain ((reencoded.live : Int) - stored.segment.live)
          let w ← putSegment w key reencoded (some stored.changeVector)
          pure (w, some (match earliest with
            | some e => min e removed
            | none => removed))
    if stop ≥ toMs then return (w, earliest)
    deleteInSegments cv fromMs toMs keys w earliest

/-- Delete the samples of a series from `fromMs` to `toMs`, both included. A replicated
deletion carries the remote change vector. The change vector of the last segment written comes
back. -/
def deleteRange (s : SeriesRef) (fromMs toMs : Int) (remote : Option String) :
    Txn (Option String) := do
  lift (Key.validateDocumentId s.doc)
  if fromMs > toMs then
    throw (.invalidArgument ("deletion range of '" ++ s.name ++ "' starts after it ends"))
  let etag ← nextEtag
  let cv ← match remote with
    | some r => do
      observeChangeVector r
      pure r
    | none => newChangeVector etag
  let tomb : Tombstone := { series := s, etag, changeVector := cv, fromMs, toMs }
  change fun t => { t with tombstones :=
    (t.tombstones.insert (Key.deletedRange s.doc s.name etag) tomb (some etag)).1 }
  let pre := s.pre
  let fromKey := Key.segmentOfPrefix pre fromMs
  let t ← tables
  let start := match t.segments.seekBackward pre fromKey with
    | some (k, _) => some k
    | none => ((t.segments.seekForward pre fromKey).head?).map Prod.fst
  let keys : List Key := match start with
    | some k => (t.segments.seekForward pre k).map Prod.fst
    | none => []
  let (w, earliest) ← deleteInSegments cv fromMs toMs keys { series := s, remote } none
  if let some removed := earliest then
    let count ← updateStats s w.liveDelta
    if count = 0 then discard (removeSeriesName s.doc s.name)
    markForPolicy s removed .dead
  pure w.changeVector

/-- Delete every series of a document in a collection, and its pending rollups. How many
series there were comes back. -/
def deleteDocumentSeries (doc collection : String) : Txn Nat := do
  lift (Key.validateDocumentId doc)
  let pre := Key.documentPrefix doc
  let series := ((← tables).statsOf collection).withPrefix pre
  for (_, r) in series do
    discard (deleteRange { doc, name := r.value.series.name, collection }
      Instant.minMillis Instant.maxMillis none)
  change fun t => { t with rollups := (t.rollups.removePrefix pre).1 }
  pure series.length

end Txn

end SeriesStore
