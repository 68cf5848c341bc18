import SeriesStore.Store.Stats
import SeriesStore.Time.Buckets

/-!
# Scheduling rollups

A write to a series whose policy is followed by another in its collection's chain leaves a
pending rollup for the series: due when the bucket of the next policy holding the earliest
touched sample has closed (`nextRollup`). A series has at most one pending rollup, the earliest;
a later one is dropped. Each new entry takes an etag, and the change vector of the write it
stems from (a fresh local one when there is none).

A deletion that only touches samples the owning policy's retention has already let go is not
scheduled.
-/

namespace SeriesStore

/-- The start of the bucket of a policy after the one holding a timestamp. -/
def nextRollup (ms : Int) (p : Policy) : Outcome Int := do
  let g ← BucketGrid.ofSpan p.aggregation
  match g.nextAfter ms with
  | .ok t => pure t
  | .error f => throw (.fault f)

namespace Txn

/-- The policy a write to a series at a timestamp must be rolled up into, if any. A deletion
outside the retention of the series' own policy needs no rollup. -/
def rollupTarget (s : SeriesRef) (ms : Int) (dead : Bool) : Txn (Option Policy) := do
  let some cfg ← configuration | return none
  let some chain := cfg.collection? s.collection | return none
  if chain.disabled then return none
  let some i := chain.indexBySeries s.name | return none
  let .named next := chain.nextPolicy i | return none
  if dead then
    if let some current := (chain.previousPolicy (i + 1)).policy? then
      let retention := current.retention
      if !retention.isInfinite then
        let due ← lift (nextRollup ms next)
        let start := retention.subtractFromMillis due
        if retention.addToMillis start < (← now).millis then return none
  return some next

/-- Schedule a series for rollup into a policy from the bucket holding a timestamp, unless an
entry due no later is there. -/
def scheduleRollup (s : SeriesRef) (next : Policy) (ms : Int) (changeVector : Option String) :
    Txn Unit := do
  let due ← lift (nextRollup ms next)
  if let some r := (← tables).rollups.get? s.key then
    if r.value.nextRollup ≤ due then return
  let etag ← nextEtag
  let cv ← match changeVector with
    | some cv => pure cv
    | none => newChangeVector etag
  let entry : RollupEntry := { series := s, policy := next.name, nextRollup := due, etag,
                               changeVector := cv }
  change fun t => { t with rollups := (t.rollups.insert s.key entry (some due)).1 }

/-- Schedule the rollup a write of samples at a timestamp calls for. -/
def markForPolicy (s : SeriesRef) (ms : Int) (status : Status) : Txn Unit := do
  if let some next ← rollupTarget s ms (status == .dead) then
    scheduleRollup s next ms none

/-- Schedule the rollup a replicated segment calls for, carrying its change vector. -/
def markSegmentForPolicy (s : SeriesRef) (baseline : Int) (changeVector : String) (live : Nat) :
    Txn Unit := do
  if let some next ← rollupTarget s baseline (live == 0) then
    scheduleRollup s next baseline (some changeVector)

/-- Drop the pending rollup under a key. -/
def dropRollup (key : Key) : Txn Unit :=
  change fun t => { t with rollups := (t.rollups.remove key).1 }

/-- Schedule up to `take` series of policy `source` in a collection, from past key `after`, for
rollup into `target` at once. How many were scheduled, and the last key, come back. -/
def scheduleNewPolicy (collection : String) (source target : Policy) (after : Option Key)
    (take : Nat) : Txn (Nat × Option Key) := do
  let series := (← tables).seriesOfPolicy collection source.name after take
  let due := target.aggregation.addToMillis Instant.minMillis
  for (k, st) in series do
    let entry : RollupEntry := { series := st.series, policy := target.name, nextRollup := due,
                                 etag := 0, changeVector := "" }
    change fun t => { t with rollups := (t.rollups.insert k entry (some due)).1 }
  pure (series.length, (series.getLast?).map (·.1))

end Txn

namespace Tables

/-- A pending rollup with its key. -/
structure DueRollup where
  key : Key
  entry : RollupEntry

/-- Take due entries in index order while `take` are not yet taken; entries `accept` refuses
are passed over. -/
def takeDue (accept : RollupEntry → Bool) (take : Nat) :
    List (Int × Key × Row RollupEntry) → List DueRollup
  | [] => []
  | (_, k, r) :: rest =>
    if take = 0 then []
    else if accept r.value then ⟨k, r.value⟩ :: takeDue accept (take - 1) rest
    else takeDue accept take rest

/-- Up to `take` pending rollups due at or before `nowMs`, earliest first, among those
`accept` takes. -/
def dueRollups (t : Tables) (nowMs : Int) (take : Nat) (accept : RollupEntry → Bool) :
    List DueRollup :=
  takeDue accept take ((t.rollups.indexFrom I64.min).takeWhile (·.1 ≤ nowMs))

/-- Whether the series under a key has a rollup due at or before a time. -/
def hasPendingRollup (t : Tables) (key : Key) (ms : Int) : Bool :=
  match t.rollups.get? key with
  | some r => r.value.nextRollup ≤ ms
  | none => false

end Tables

end SeriesStore
