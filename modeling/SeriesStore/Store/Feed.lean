import SeriesStore.Store.Replicate

/-!
# Feeds and purging

Segments and deleted ranges are listed by etag, for shipping to other nodes. Segments left
without live samples, and deleted ranges, are removed for good by `purge` once every node has
seen them, up to an etag.
-/

namespace SeriesStore

namespace Tables

/-- The shipped form of a stored segment. -/
def segmentItem (key : Key) (r : SegmentRow) : SegmentItem :=
  { series := r.series, baseline := Instant.ofMillis ((Key.baselineOf key).getD 0),
    changeVector := r.changeVector, etag := r.etag, bytes := r.bytes }

/-- Up to `take` segments with etag at least `fromEtag`, in etag order. -/
def segmentsFrom (t : Tables) (fromEtag : Int) (take : Nat) : List SegmentItem :=
  ((t.segments.indexFrom fromEtag).take take).map fun (_, k, r) => segmentItem k r.value

/-- Up to `take` segments of a collection (named without case) with etag at least
`fromEtag`, in etag order. -/
def collectionSegmentsFrom (t : Tables) (collection : String) (fromEtag : Int) (take : Nat) :
    List SegmentItem :=
  (((t.segments.indexFrom fromEtag).filter fun (_, _, r) =>
    Text.lower r.value.series.collection == Text.lower collection).take take).map
      fun (_, k, r) => segmentItem k r.value

/-- The etag of the latest segment, zero when there is none. -/
def lastSegmentEtag (t : Tables) : Int :=
  (t.segments.indexRev.head?.map (·.1)).getD 0

/-- The etag of the latest segment of a collection. -/
def lastCollectionEtag (t : Tables) (collection : String) : Int :=
  ((t.segments.indexRev.find? fun (_, _, r) =>
    Text.lower r.value.series.collection == Text.lower collection).map (·.1)).getD 0

/-- Up to `take` deleted ranges with etag at least `fromEtag`, in etag order. -/
def tombstonesFrom (t : Tables) (fromEtag : Int) (take : Nat) : List TombstoneItem :=
  ((t.tombstones.indexFrom fromEtag).take take).map fun (_, _, r) =>
    { series := r.value.series, fromTime := Instant.ofMillis r.value.fromMs,
      toTime := Instant.ofMillis r.value.toMs, changeVector := r.value.changeVector,
      etag := r.value.etag }

/-- The signed etag of a drained-segment key. -/
def pendingEtag (k : Key) : Option Int :=
  if k.length = 8 then
    let n := Key.ofBigEndian k
    some (if n ≥ 2 ^ 63 then (n : Int) - 2 ^ 64 else n)
  else none

end Tables

namespace Txn

/-- Remove for good, up to etag `upto` and at most `max` of them, the drained segments of a
collection that still hold no live sample under the etag listed, then its deleted ranges in etag
order. How many rows were removed comes back. -/
def purge (collection : String) (upto : Int) (max : Nat) : Txn Nat := do
  let pending := (((← tables).pendingOf collection).toList.filterMap fun (k, r) =>
    (Tables.pendingEtag k).map fun e => (k, e, r.value)).takeWhile (·.2.1 ≤ upto) |>.take max
  let mut purged := 0
  for (pk, etag, segKey) in pending do
    let unlist := fun (p : Table Key) => (p.remove pk).1
    change fun t => { t with pending := Tables.updateCollection t.pending collection unlist }
    let drained := match (← tables).segments.get? segKey with
      | some r => r.value.etag == etag && r.value.segment.live == 0
      | none => false
    if drained then
      change fun t => { t with segments := (t.segments.remove segKey).1 }
      purged := purged + 1
  let remaining := max - pending.length
  let keys := ((← tables).tombstones.indexFrom I64.min).takeWhile (·.1 ≤ upto) |>.filter
    (fun (_, _, r) => Text.lower r.value.series.collection == Text.lower collection) |>.take remaining
  for (_, k, _) in keys do
    change fun t => { t with tombstones := (t.tombstones.remove k).1 }
  pure (purged + keys.length)

end Txn

end SeriesStore
