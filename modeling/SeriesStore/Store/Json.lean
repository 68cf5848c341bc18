import SeriesStore.Store.Feed
import SeriesStore.Store.Schedule
import SeriesStore.Store.Reader
import SeriesStore.Segment.Json

/-!
# The store's values as JSON

Samples are written with their instant in milliseconds (and the nanoseconds within it when
there are any), their values and their tag when they have one. Rows carry their series as
`doc`, `name` and `collection`. A dump lists every non-empty table of a database by name, each
row with its key in hexadecimal, its index and its value.
-/

namespace SeriesStore

/-- The fields naming a series. -/
def SeriesRef.jsonFields (s : SeriesRef) : List (String × Json) :=
  [("doc", .str s.doc), ("name", .str s.name), ("collection", .str s.collection)]

/-- A sample as JSON. -/
def Sample.toJson (x : Sample) : Json :=
  .obj (x.time.jsonFields ++ [("values", Double.listJson x.values)] ++
    (match x.tag with
      | some t => [("tag", .str t)]
      | none => []))

/-- An optional sample as JSON. -/
def Sample.optJson : Option Sample → Json
  | some x => x.toJson
  | none => .null

/-- A statistics row as JSON. -/
def StatsRow.toJson (r : StatsRow) : Json :=
  .obj (r.series.jsonFields ++ [("policy", .str r.policy), ("count", .int r.count),
    ("start", .int r.startMs), ("end", .int r.endMs)])

/-- A pending rollup as JSON fields. -/
def RollupEntry.jsonFields (e : RollupEntry) : List (String × Json) :=
  e.series.jsonFields ++ [("policy", .str e.policy), ("next_rollup", .int e.nextRollup),
    ("etag", .int e.etag), ("cv", .str e.changeVector)]

/-- A due rollup as JSON, with its key. -/
def Tables.DueRollup.toJson (d : Tables.DueRollup) : Json :=
  .obj (("key", .str (Json.hexText d.key)) :: d.entry.jsonFields)

/-- A deleted range as JSON. -/
def Tombstone.toJson (t : Tombstone) : Json :=
  .obj (t.series.jsonFields ++ [("etag", .int t.etag), ("cv", .str t.changeVector),
    ("from", .int t.fromMs), ("to", .int t.toMs)])

/-- A shipped segment as JSON. -/
def SegmentItem.toJson (i : SegmentItem) : Json :=
  .obj (i.series.jsonFields ++ [("baseline", .int i.baseline.millis),
    ("cv", .str i.changeVector), ("etag", .int i.etag),
    ("segment", .str (Json.hexText i.bytes.toList))])

/-- A shipped deleted range as JSON. -/
def TombstoneItem.toJson (i : TombstoneItem) : Json :=
  .obj (i.series.jsonFields ++ [("from", .int i.fromTime.millis), ("to", .int i.toTime.millis),
    ("cv", .str i.changeVector), ("etag", .int i.etag)])

/-- A window item as JSON: a whole segment's bounds and summaries, or samples. -/
def SegmentOrValues.toJson : SegmentOrValues → Json
  | .whole s => .obj [("segment", .obj [("baseline", .int s.baseline), ("end", .int s.endMs),
      ("etag", .int s.etag), ("cv", .str s.changeVector), ("live", .int s.segment.live),
      ("summary", .arr (s.segment.columns.map ColumnSummary.toJson))])]
  | .values xs => .obj [("values", .arr (xs.map Sample.toJson))]

/-- A window summary as JSON. -/
def WindowSummary.toJson (s : WindowSummary) : Json :=
  .obj [("count", .int s.count), ("min", Double.listJson s.min), ("max", Double.listJson s.max)]

/-- A stored segment row as JSON, with its decoded description when asked. -/
def SegmentRow.toJson (decoded : Bool) (r : SegmentRow) : Outcome Json := do
  let base := r.series.jsonFields ++ [("etag", .int r.etag), ("cv", .str r.changeVector),
    ("checksum", .int r.checksum.toNat), ("segment", .str (Json.hexText r.bytes.toList))]
  if decoded then pure (.obj (base ++ [("decoded", .obj (← r.segment.describeContents))]))
  else pure (.obj base)

/-- The rows of a table as JSON. -/
def Table.rowsJson {α : Type} (t : Table α) (value : α → Outcome Json) : Outcome (List Json) :=
  t.toList.mapM fun (k, r) => do
    pure (.obj [("key", .str (Json.hexText k)), ("index", match r.index with
      | some i => .int i
      | none => .null), ("value", ← value r.value)])

/-- Database settings as JSON. The milliseconds between checks are reported as a 64-bit word:
a longer duration wraps around. -/
def Settings.toJson (s : Settings) : Json :=
  .obj [("name", .str s.name), ("node_tag", .str s.nodeTag), ("database_id", .str s.databaseId),
    ("rollup_batch_size", .int s.rollupBatch), ("retention_batch_size", .int s.retentionBatch),
    ("policy_batch_size", .int s.policyBatch),
    ("default_policy_check_frequency_ms", .int (s.checkMillis % 2 ^ 64))]

namespace Database

/-- The non-empty tables of a database by name, with their rows. -/
def tablesJson (db : Database) (decoded : Bool) : Outcome (List (String × List Json)) := do
  let t := db.tables
  let named : List (String × List Json) := [
    ("DeletedRanges", ← t.tombstones.rowsJson fun x => pure x.toJson),
    ("Documents", ← t.documents.rowsJson fun d => pure (.obj [("id", .str d.id), ("data", d.data)])),
    ("TimeSeries", ← t.segments.rowsJson (SegmentRow.toJson decoded)),
    ("TimeSeriesRollups", ← t.rollups.rowsJson fun e => pure (.obj e.jsonFields))]
  let pending ← t.pending.mapM fun (c, tb) => do
    pure ("TimeSeriesPendingDeletion/" ++ c, ← tb.rowsJson fun k => pure (.str (Json.hexText k)))
  let stats ← t.stats.mapM fun (c, tb) => do
    pure ("TimeSeriesStats/" ++ c, ← tb.rowsJson fun r => pure r.toJson)
  pure (((named ++ pending ++ stats).filter (!·.2.isEmpty)).mergeSort
    fun a b => decide (a.1 ≤ b.1))

/-- Every non-empty table of a database, its last etag and its change vector. -/
def dump (db : Database) (decoded : Bool) : Outcome Json := do
  let tables ← db.tablesJson decoded
  pure (.obj [("tables", .arr (tables.map fun (n, rows) =>
      .obj [("name", .str n), ("rows", .arr rows)])),
    ("last_etag", .int db.versions.lastEtag), ("global_cv", .str db.changeVectorText)])

end Database

end SeriesStore
