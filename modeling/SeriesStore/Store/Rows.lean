import SeriesStore.Table
import SeriesStore.Segment.Layout
import SeriesStore.Segment.Decode
import SeriesStore.Codec.Crc32
import SeriesStore.Json.Value
import SeriesStore.Json.Render
import SeriesStore.Text.Utf8
import SeriesStore.Time.Instant

/-!
# The rows of a store

A store keeps its state in sorted tables of typed rows:

* `segments`: every stored segment, under its segment key, indexed by the etag it was written
  with;
* `tombstones`: every deleted range, under the series prefix and its etag, indexed by etag;
* `rollups`: one pending rollup per series, under the series key, indexed by the time it is due;
* `documents`: the documents, under their lower-case ids;
* per collection (by lower-case name), the statistics of its series, under the series key and
  indexed by the first live timestamp, and the segments left without live samples, under the
  etag they were written with (eight bytes, most significant first), holding the segment key.

A segment row holds its segment; the bytes it would be stored as, and their checksum, are read
off it.
-/

namespace SeriesStore

/-- A sample as callers give and get it: an instant, its values, an optional tag as text, and
its status. -/
structure Sample where
  time : Instant
  values : List Double
  tag : Option String := none
  status : Status := .live
  deriving Inhabited

/-- The sample of a decoded entry at an instant; the tag is read as UTF-8, invalid runs
replaced. -/
def Sample.ofEntry (time : Instant) (e : Entry) : Sample :=
  { time, values := e.values, tag := e.tag.map Text.ofUtf8Lossy, status := e.status }

/-- Which series: its document, its name and the collection of the document. -/
structure SeriesRef where
  doc : String
  name : String
  collection : String
  deriving Repr, Inhabited, DecidableEq

namespace SeriesRef

/-- The key of the series in the tables with one row per series. -/
def key (s : SeriesRef) : Key := Key.seriesKey s.doc s.name

/-- The prefix of the keys of the series' segments and deleted ranges. -/
def pre (s : SeriesRef) : Key := Key.seriesPrefix s.doc s.name

end SeriesRef

/-- A stored segment and where it came from. -/
structure SegmentRow where
  series : SeriesRef
  etag : Int
  changeVector : String
  segment : Segment
  deriving Inhabited

namespace SegmentRow

/-- The bytes the segment is stored as. -/
def bytes (r : SegmentRow) : Array UInt8 := r.segment.toBytes

/-- The checksum of the stored bytes. -/
def checksum (r : SegmentRow) : UInt32 := Crc32.checksum r.bytes.toList

end SegmentRow

/-- A deleted range of a series: the samples from `fromMs` to `toMs`, both included, are
removed where the deletion has not been seen. -/
structure Tombstone where
  series : SeriesRef
  etag : Int
  changeVector : String
  fromMs : Int
  toMs : Int
  deriving Repr, Inhabited, DecidableEq

/-- Whether a deleted range covers a timestamp. -/
def Tombstone.covers (t : Tombstone) (ms : Int) : Bool := t.fromMs ≤ ms && ms ≤ t.toMs

/-- The live samples of one series: their number, the first and the last timestamp, and the
policy (lower case) whose series it is. -/
structure StatsRow where
  series : SeriesRef
  policy : String
  count : Nat
  startMs : Int
  endMs : Int
  deriving Repr, Inhabited, DecidableEq

/-- A series waiting to be rolled up into the series of `policy`, from the bucket that closes at
`nextRollup` on. -/
structure RollupEntry where
  series : SeriesRef
  policy : String
  nextRollup : Int
  etag : Int
  changeVector : String
  deriving Repr, Inhabited, DecidableEq

/-- A stored document. -/
structure Document where
  id : String
  data : Json
  deriving Inhabited

/-! ## Bytes of stored rows

Rows are stored encoded: the segment, deleted-range, statistics and rollup rows field by field,
a text as its length in eight bytes and its UTF-8 bytes, a number in eight bytes, the segment's
checksum in four and its bytes after their length; a document as its JSON text. The tables count
these bytes. -/

/-- The bytes a text is stored in: its length, then its UTF-8 bytes. -/
def textBytes (s : String) : Nat := 8 + s.utf8ByteSize

/-- The bytes of the document, name and collection of a series. -/
def SeriesRef.storedBytes (s : SeriesRef) : Nat :=
  textBytes s.doc + textBytes s.name + textBytes s.collection

instance : ByteSize SegmentRow :=
  ⟨fun r => r.series.storedBytes + 8 + textBytes r.changeVector + 4 + 8 + r.bytes.size⟩

instance : ByteSize Tombstone :=
  ⟨fun r => r.series.storedBytes + 8 + textBytes r.changeVector + 8 + 8⟩

instance : ByteSize StatsRow :=
  ⟨fun r => r.series.storedBytes + textBytes r.policy + 8 + 8 + 8⟩

instance : ByteSize RollupEntry :=
  ⟨fun r => r.series.storedBytes + textBytes r.policy + 8 + 8 + textBytes r.changeVector⟩

instance : ByteSize Document :=
  ⟨fun d => (Json.obj [("id", .str d.id), ("data", d.data)]).render.utf8ByteSize⟩

/-- The tables of a store. -/
structure Tables where
  segments : Table SegmentRow := {}
  tombstones : Table Tombstone := {}
  rollups : Table RollupEntry := {}
  documents : Table Document := {}
  stats : List (String × Table StatsRow) := []
  pending : List (String × Table Key) := []
  deriving Inhabited

namespace Tables

/-- The table of a collection in a list of per-collection tables. -/
def ofCollection {α : Type} (ts : List (String × Table α)) (collection : String) : Table α :=
  (ts.lookup (Text.lower collection)).getD {}

/-- Change the table of a collection, keeping the list in order of names. -/
def updateCollection {α : Type} (ts : List (String × Table α)) (collection : String)
    (f : Table α → Table α) : List (String × Table α) :=
  let name := Text.lower collection
  let t := f ((ts.lookup name).getD {})
  let rest := ts.filter (·.1 != name)
  let (lo, hi) := rest.partition fun (n, _) => decide (n < name)
  lo ++ (name, t) :: hi

/-- The statistics of a collection. -/
def statsOf (t : Tables) (collection : String) : Table StatsRow := ofCollection t.stats collection

/-- The drained segments of a collection. -/
def pendingOf (t : Tables) (collection : String) : Table Key := ofCollection t.pending collection

/-- The key of a drained segment: its etag, most significant byte first. -/
def pendingKey (etag : Int) : Key := Key.etagBytes etag

end Tables

end SeriesStore
