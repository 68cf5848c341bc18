import SeriesStore.Error
import SeriesStore.Json.Value

/-!
# Failures as JSON

A failure is written as its kind and its message: `{"error": "NotFound", "message": "..."}`.
A fault has no message of its own and is written `{"error": "panic"}`, a loop that never returns
`{"error": "hang"}`.
-/

namespace SeriesStore

namespace Error

/-- The name of a kind of failure. -/
def kindName : Error → String
  | .corruption _ => "Corruption"
  | .segmentTooLarge _ => "SegmentTooLarge"
  | .transaction _ => "Transaction"
  | .invalidValue _ => "InvalidValue"
  | .invalidArgument _ => "InvalidArgument"
  | .notFound _ => "NotFound"
  | .invalidChangeVector _ => "InvalidChangeVector"
  | .serialization _ => "Serialization"
  | .configuration _ => "Configuration"
  | .internal _ => "Internal"
  | .cancelled => "Cancelled"
  | .fault .stuck => "hang"
  | .fault _ => "panic"

/-- Kind and message of a failure, none for a fault. -/
def fields : Error → List (String × Json)
  | .fault f => [("error", .str (Error.fault f).kindName)]
  | e => [("error", .str e.kindName), ("message", .str e.message)]

/-- A failure as JSON. -/
def toJson (e : Error) : Json := .obj e.fields

end Error

end SeriesStore
