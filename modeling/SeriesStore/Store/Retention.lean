import SeriesStore.Store.Delete

/-!
# Retention

The series of a policy whose first live sample is older than a cutoff lose their samples up to
the cutoff. A series waiting for a rollup due by the cutoff is left alone until it is rolled up.
A rollup due later does not hold a series back, though its bucket may start before the cutoff.
-/

namespace SeriesStore

namespace Tables

/-- Up to `take` series of a policy in a collection that hold samples before `cutoff` and wait
for no rollup due by then, by their first sample. -/
def seriesToRetain (t : Tables) (collection policy : String) (cutoff : Int) (take : Nat) :
    List StatsRow :=
  ((t.seriesStartingBefore collection policy cutoff).filter fun r =>
    !t.hasPendingRollup r.series.key cutoff).take take

end Tables

namespace Txn

/-- Delete the samples of each series up to `toMs`; how many series lost samples comes back. -/
def retain (series : List StatsRow) (toMs : Int) : Txn Nat :=
  series.foldlM (fun n r => do
    match ← deleteRange r.series Instant.minMillis toMs none with
    | some _ => pure (n + 1)
    | none => pure n) 0

end Txn

end SeriesStore
