import SeriesStore.Segment.Layout
import SeriesStore.Segment.Decode
import SeriesStore.Error.Json
import SeriesStore.Json.Render
import SeriesStore.Time.Instant

/-!
# Segments as JSON

A double is written as a JSON number, except the three values JSON has no number for: `"NaN"`,
`"Infinity"` and `"-Infinity"`. A segment is described by its bytes, counts, column summaries
and decoded samples; a decoding that stops early ends the list of samples with the failure.
-/

namespace SeriesStore

/-- A double as JSON. -/
def Double.toJson (x : Double) : Json :=
  if x.isNaN then .str "NaN"
  else if x.isInf then .str (if x.signBit then "-Infinity" else "Infinity")
  else .float x.toFloat

/-- Doubles as a JSON array. -/
def Double.listJson (xs : List Double) : Json := .arr (xs.map Double.toJson)

/-- An instant as milliseconds, with the nanoseconds within the millisecond when there are
any. -/
def Instant.jsonFields (t : Instant) : List (String × Json) :=
  ("t", .int t.millis) ::
    (if t.subMillisNanos = 0 then [] else [("sub_ms_ns", .int t.subMillisNanos)])

/-- A decoded sample. -/
def Entry.toJson (e : Entry) : Json :=
  .obj [("offset", .int e.offset), ("values", Double.listJson e.values),
        ("tag_hex", match e.tag with
          | some t => .str (Json.hexText t)
          | none => .null),
        ("dead", .bool (e.status == .dead))]

/-- A column summary. -/
def ColumnSummary.toJson (c : ColumnSummary) : Json :=
  .obj [("first", c.first.toJson), ("last", c.last.toJson), ("min", c.min.toJson),
        ("max", c.max.toJson), ("sum", c.sum.toJson), ("count", .int c.count)]

namespace Segment

/-- The samples of a segment, then the failure that stopped the decoding; a fault has no
description. -/
def decodedJson (s : Segment) : Outcome (List Json) := do
  let d := s.decode
  if let some (.fault f) := d.stop then throw (.fault f)
  pure (d.entries.map Entry.toJson ++
    (match d.stop with
      | some st => [(stopError st).toJson]
      | none => []))

/-- A description of a segment without its bytes. -/
def describeContents (s : Segment) : Outcome (List (String × Json)) := do
  pure [("width", .int s.width), ("entries", .int s.entries), ("live", .int s.live),
        ("last_offset", .int s.lastOffset), ("size", .int s.sizeInBytes),
        ("summary", .arr (s.columns.map ColumnSummary.toJson)),
        ("decoded", .arr (← s.decodedJson))]

/-- A description of a segment. -/
def describe (s : Segment) : Outcome (List (String × Json)) := do
  pure (("bytes", .str (Json.hexText s.toBytes.toList)) :: (← s.describeContents))

end Segment

end SeriesStore
