import SeriesStore.Store.Aggregate
import SeriesStore.Store.Delete

/-!
# Rolling up

A due pending rollup aggregates its source series into the series of its policy: the buckets
from the one the entry names (the bucket before `nextRollup`) up to the last bucket that closed
before the clock, one aggregation span ago. An entry is dropped when its collection is no longer
configured, its policy is gone or its document is gone; it is left alone when its collection is
disabled or when a newer entry replaced it (by etag).

When the target series already holds rollup output from the start on, the entry is dropped if
that output has seen the entry's change vector; otherwise the output from the start on is
deleted and written anew. If the source holds nothing before the start and its first sample
falls in a later bucket, the output is kept and the series is scheduled from that sample.

Only the primary writes output. When the source has samples past the rolled-up range, it is
scheduled again from the next bucket.
-/

namespace SeriesStore

namespace Txn

/-- Drop the pending rollup under a key, if the table has it. -/
def forgetRollup (key : Key) : Txn Unit := dropRollup key

/-- Roll up one due entry; whether it was rolled up. -/
def rollupOne (cfg : Configuration) (nowMs : Int) (primary : Bool) (due : Tables.DueRollup) :
    Txn Bool := do
  let item := due.entry
  let some chain := cfg.collection? item.series.collection
    | do forgetRollup due.key; return false
  if chain.disabled then return false
  let some (.named policy) := chain.byName item.policy
    | do forgetRollup due.key; return false
  let some current := (← tables).rollups.get? due.key | return false
  if current.value.etag != item.etag then return false
  let source := item.series
  if !(← tables).hasDocument source.doc then
    forgetRollup due.key
    return false
  let start := policy.aggregation.subtractFromMillis item.nextRollup
  let target : SeriesRef := { source with name := policy.seriesName (SeriesName.raw source.name) }
  let targetWindow := SeriesWindow.ofSeries target.doc target.name start Instant.maxMillis none
  let aggregated ← readsOutcome targetWindow.any
  let targetCv ← readsOutcome targetWindow.firstChangeVector
  if aggregated && !item.changeVector.isEmpty then
    if let some cv := targetCv then
      if (← lift (conflictStatus item.changeVector cv)) == .alreadyMerged then
        forgetRollup due.key
        return false
  if !primary then return false
  let stop := (← lift (nextRollup (policy.aggregation.subtractFromMillis nowMs) policy)) - 1
  if aggregated then
    let beforeStart ← liftFault (I64.sub start 1)
    let prior ← readsOutcome
      (SeriesWindow.ofSeries source.doc source.name Instant.minMillis beforeStart none).any
    if !prior then
      let first ← readsOutcome
        (SeriesWindow.ofSeries source.doc source.name start Instant.maxMillis none).first
      let some first := first
        | do forgetRollup due.key; return false
      if (← lift (nextRollup first.time.millis policy)) > item.nextRollup then
        forgetRollup due.key
        scheduleRollup source policy first.time.millis none
        return false
  let mode := if (SeriesName.policy? source.name).isSome then AggregationMode.fromAggregated
    else .fromRaw
  let grid ← lift (BucketGrid.ofSpan policy.aggregation)
  let values ← readsOutcome
    ((SeriesWindow.ofSeries source.doc source.name start stop none).aggregatedValues · grid mode)
  if values.any (·.values.length > Segment.maxWidth) then
    forgetRollup due.key
    return false
  if aggregated then discard (deleteRange target start Instant.maxMillis none)
  forgetRollup due.key
  if !values.isEmpty then discard (appendSamples target values none true)
  if let some st := (← tables).stats? source.collection source.doc source.name then
    if st.endMs > stop then scheduleRollup source policy (stop + 1) none
  return true

/-- Roll up a batch of due entries; how many were rolled up comes back. -/
def rollupBatch (cfg : Configuration) (now : Instant) (primary : Bool)
    (batch : List Tables.DueRollup) : Txn Nat :=
  batch.foldlM (fun n due => do
    if ← rollupOne cfg now.millis primary due then pure (n + 1) else pure n) 0

end Txn

end SeriesStore
