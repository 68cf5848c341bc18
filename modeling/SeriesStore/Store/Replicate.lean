import SeriesStore.Store.Delete

/-!
# Replication

Nodes ship each other whole segments and deleted ranges, in etag order (`Feed`).

A shipped segment is stored as it is when it fits: when no stored segment overlaps it, or
when the one stored under the same baseline is older by the change vectors. When the stored
one has already seen it, nothing is done; when the two conflict, or the shipped segment
overlaps a neighbour, it is refused and `appendSegment` falls back to appending its samples
one by one, as a replicated write. Samples a deleted range unseen by the shipped vector covers
are stored dead.

A shipped deleted range is applied as a replicated deletion.
-/

namespace SeriesStore

/-- A whole segment as shipped between nodes. -/
structure SegmentItem where
  series : SeriesRef
  baseline : Instant
  changeVector : String
  etag : Int
  bytes : Array UInt8

/-- A deleted range as shipped between nodes. -/
structure TombstoneItem where
  series : SeriesRef
  fromTime : Instant
  toTime : Instant
  changeVector : String
  etag : Int

/-- The segment with the live samples that a deleted range covers made dead. -/
def killCovered (s : Segment) (baseline : Int) (ts : List Tombstone) : Outcome Segment := do
  let d := s.decode
  let empty ← Segment.ofWidth s.width
  let reencoded ← d.entries.foldlM (fun acc e => do
    let ms := baseline + e.offset
    let status := if ts.any (·.covers ms) then Status.dead else e.status
    match acc.append e.offset e.values e.tag status with
    | .ok (some acc') => pure acc'
    | .ok none => throw (.internal ("re-encoding segment at " ++ toString baseline ++
        " overflowed"))
    | .error f => throw (.fault f)) empty
  match d.stop with
  | some st => throw (Segment.stopError st)
  | none => pure reencoded

namespace Txn

/-- Whether a shipped segment can be stored whole, and the live samples of the one it
replaces; `none` when it is refused or already seen, with the answer to give. -/
def placeWhole (pre key : Key) (item : SegmentItem) (baseline : Int) (s : Segment) :
    Txn (Sum Bool Nat) := do
  let t ← tables
  let previous ← match t.segments.get? key with
    | some existing => do
      match ← lift (conflictStatus item.changeVector existing.value.changeVector) with
      | .alreadyMerged => pure (Sum.inl true)
      | .conflict => pure (Sum.inl false)
      | .update => pure (Sum.inr existing.value.segment.live)
    | none =>
      match (t.segments.seekBefore pre key).head? with
      | some (k, r) =>
        if r.value.segment.lastTimestamp ((Key.baselineOf k).getD 0) ≥ baseline then
          pure (Sum.inl false)
        else pure (Sum.inr 0)
      | none => pure (Sum.inr 0)
  match previous with
  | .inl answer => pure (.inl answer)
  | .inr live =>
    match (t.segments.seekAfter pre key).head? with
    | some (k, _) =>
      if s.lastTimestamp baseline ≥ (Key.baselineOf k).getD 0 then pure (.inl false)
      else pure (.inr live)
    | none => pure (.inr live)

/-- Store a shipped segment whole when it fits; whether it was taken (or already seen). -/
def storeWholeSegment (item : SegmentItem) : Txn Bool := do
  lift (Key.validateDocumentId item.series.doc)
  let s := item.series
  let pre := s.pre
  let baseline := item.baseline.millis
  let key := Key.segmentOfPrefix pre baseline
  let seg ← lift (Segment.ofBytes item.bytes)
  match ← placeWhole pre key item baseline seg with
  | .inl answer => pure answer
  | .inr previousLive =>
    observeChangeVector item.changeVector
    let ts ← unseenTombstones pre item.changeVector
    let seg ← if ts.isEmpty then pure seg else lift (killCovered seg baseline ts)
    let w : SeriesWrite := { series := s, remote := some item.changeVector,
                             liveDelta := (seg.live : Int) - previousLive }
    let w ← putSegment w key seg (some item.changeVector)
    syncSeriesName s (← updateStats s w.liveDelta)
    markSegmentForPolicy s baseline item.changeVector seg.live
    pure true

/-- Apply a shipped segment: whole when it fits, else sample by sample as a replicated write.
The change vector written comes back. -/
def appendSegment (item : SegmentItem) : Txn (Option String) := do
  if ← storeWholeSegment item then return some item.changeVector
  let baseline := item.baseline.millis
  let seg ← lift (Segment.ofBytes item.bytes)
  let entries ← lift seg.samples
  let samples := entries.map fun e => Sample.ofEntry (Instant.ofMillis (baseline + e.offset)) e
  appendSamples item.series samples (some item.changeVector) true

/-- Apply a shipped deleted range. -/
def applyTombstone (item : TombstoneItem) : Txn (Option String) :=
  deleteRange item.series item.fromTime.millis item.toTime.millis (some item.changeVector)

end Txn

end SeriesStore
