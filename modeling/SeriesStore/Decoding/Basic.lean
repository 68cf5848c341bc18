import SeriesStore.Text.Escape

/-!
# Typed reading of self-describing data

JSON and TOML hand their values to typed readers through one data model: strings, booleans,
whole numbers, optional values, sequences, maps keyed by strings, and records with named
fields. `FieldSource m` is a format's reader of that model in its monad `m`. A record is
described once, as a `RecordShape`, and read the same way from every format.

A record read from a map takes its fields by name: an unknown name is passed over (refused, for
a closed record), a repeated one is refused, and once the map is read a missing field takes its
default or, without one, is refused; the first missing field in declaration order is named. A
record read from a sequence takes its fields in declaration order; where the sequence ends
early, a field with a default takes it and one without is refused.

Failures name what was found and what was expected, as in
`invalid type: integer 5, expected a string` (the found value in backquotes). The wording of a
null and of a floating point number is the format's own (`UnexpectedWording`).
-/

namespace SeriesStore

/-- What a reader found in place of the value it expected. -/
inductive Unexpected where
  | bool (b : Bool)
  | integer (n : Int)
  | float (x : Float)
  | string (s : String)
  | null
  | seq
  | map
  deriving Inhabited

/-- How a format words what it found: its null, and a floating point number. -/
structure UnexpectedWording where
  null : String
  float : Float → String

namespace Unexpected

/-- The words for what was found. -/
def describe (w : UnexpectedWording) : Unexpected → String
  | .bool b => "boolean `" ++ (if b then "true" else "false") ++ "`"
  | .integer n => "integer `" ++ toString n ++ "`"
  | .float x => "floating point `" ++ w.float x ++ "`"
  | .string s => "string " ++ Text.quoted s
  | .null => w.null
  | .seq => "sequence"
  | .map => "map"

end Unexpected

namespace Decoding

/-- A value of the wrong kind. -/
def invalidType (w : UnexpectedWording) (u : Unexpected) (expected : String) : String :=
  "invalid type: " ++ u.describe w ++ ", expected " ++ expected

/-- A value of the right kind out of range. -/
def invalidValue (w : UnexpectedWording) (u : Unexpected) (expected : String) : String :=
  "invalid value: " ++ u.describe w ++ ", expected " ++ expected

/-- A sequence of the wrong length. -/
def invalidLength (n : Nat) (expected : String) : String :=
  "invalid length " ++ toString n ++ ", expected " ++ expected

/-- A field that must be given and was not. -/
def missingField (name : String) : String := "missing field `" ++ name ++ "`"

/-- A field given twice. -/
def duplicateField (name : String) : String := "duplicate field `" ++ name ++ "`"

/-- Names in backquotes: one, two joined by `or`, or more after `one of`. -/
def oneOf : List String → String
  | [a] => "`" ++ a ++ "`"
  | [a, b] => "`" ++ a ++ "` or `" ++ b ++ "`"
  | names => "one of " ++ ", ".intercalate (names.map fun n => "`" ++ n ++ "`")

/-- A field that a closed record does not have. -/
def unknownField (name : String) (expected : List String) : String :=
  match expected with
  | [] => "unknown field `" ++ name ++ "`, there are no fields"
  | _ => "unknown field `" ++ name ++ "`, expected " ++ oneOf expected

end Decoding

/-- A record type as its readers see it. The state `σ` holds the fields read so far. -/
structure RecordShape (m : Type → Type) (σ α : Type) where
  /-- What a failure says was expected: `struct Policy`. -/
  expected : String
  /-- What a sequence that ends too early is told was expected. -/
  lengthExpected : String
  /-- The field names in declaration order, each with whether it has a default. -/
  fields : List (String × Bool)
  /-- Whether a field of another name is refused. -/
  closed : Bool
  /-- No field read. -/
  start : σ
  /-- Read the value of field `i` into the state. -/
  field : Nat → σ → m σ
  /-- The record from the fields read, the others taking their defaults; a failure is a message
  of the record's own. -/
  finish : σ → Except String α

namespace RecordShape

variable {m : Type → Type} {σ α : Type}

/-- The names of the fields. -/
def names (r : RecordShape m σ α) : List String := r.fields.map (·.1)

/-- The position of a field name. -/
def position? (r : RecordShape m σ α) (name : String) : Option Nat := r.names.idxOf? name

/-- Whether field `i` has a default. -/
def hasDefault (r : RecordShape m σ α) (i : Nat) : Bool := (r.fields[i]?.map (·.2)).getD true

/-- The first field in declaration order that has no default and was not read. -/
def firstMissing (r : RecordShape m σ α) (seen : List Nat) : Option String :=
  (r.fields.zipIdx.find? fun ((_, d), i) => !d && !seen.contains i).map (·.1.1)

end RecordShape

/-- A format's reader of the data model, in its monad `m`. -/
class FieldSource (m : Type → Type) where
  /-- A string. -/
  string : m String
  /-- A boolean. -/
  bool : m Bool
  /-- A whole number below `limit`; `expected` names the type in failures. -/
  natural : (limit : Nat) → (expected : String) → m Nat
  /-- A value that may be absent. -/
  option : {α : Type} → m α → m (Option α)
  /-- A sequence, each item read by the reader given. -/
  seq : {α : Type} → m α → m (List α)
  /-- A map keyed by strings, in the order given, a key given twice included twice. -/
  map : {α : Type} → m α → m (List (String × α))
  /-- A record. -/
  record : {σ α : Type} → RecordShape m σ α → m α
  /-- Fail with a message of the reader's own about the value just read. -/
  fail : {α : Type} → String → m α

namespace FieldSource

variable {m : Type → Type} [Monad m] [FieldSource m]

/-- A value written as a string and read from it. -/
def parsed {α : Type} (read : String → Except String α) : m α := do
  match read (← FieldSource.string) with
  | .ok v => pure v
  | .error e => FieldSource.fail e

/-- A map in which a key given twice keeps its last value, in the place of its first. -/
def lastWins {α : Type} (entries : List (String × α)) : List (String × α) :=
  entries.foldl (fun acc (k, v) =>
    if acc.any (·.1 == k) then acc.map fun (k', v') => if k' == k then (k', v) else (k', v')
    else acc ++ [(k, v)]) []

end FieldSource

end SeriesStore
