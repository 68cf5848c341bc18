import SeriesStore.Policy
import SeriesStore.Decoding.JsonText
import SeriesStore.Decoding.JsonValue
import SeriesStore.Decoding.Toml

/-!
# Reading a configuration

The configuration is read through the data model of `FieldSource`, so one description serves
JSON text, JSON values and TOML. Its records and their fields, in declaration order:

* a configuration: `collections`, a map of chains, and `policy_check_frequency`, an optional
  span; both have defaults;
* a chain: `disabled`, `policies` and `raw_policy`, all with defaults;
* a policy: `name`, which must be given, `retention_time` (infinite by default) and
  `aggregation_time` (zero by default).

Spans are written as text (`Span.parse`); a span that does not read is refused with its own
message. Unknown fields are passed over, and a collection named twice keeps its last chain. Once
read, a configuration is validated (`Configuration.validate`); a failure to read or to validate
is a configuration error.
-/

namespace SeriesStore

namespace Configuration

variable {m : Type → Type} [Monad m] [FieldSource m]

/-- A span written as text. -/
def spanField : m Span := FieldSource.parsed fun s => (Span.parse s).mapError Error.message

/-- The fields of a policy read so far. -/
structure PolicyFields where
  name : Option String := none
  retention : Option Span := none
  aggregation : Option Span := none

/-- A policy as a record. -/
def policyShape : RecordShape m PolicyFields Policy where
  expected := "struct TimeSeriesPolicy"
  lengthExpected := "struct TimeSeriesPolicy with 3 elements"
  fields := [("name", false), ("retention_time", true), ("aggregation_time", true)]
  closed := false
  start := {}
  field i st := match i with
    | 0 => do pure { st with name := some (← FieldSource.string) }
    | 1 => do pure { st with retention := some (← spanField) }
    | _ => do pure { st with aggregation := some (← spanField) }
  finish st := .ok ⟨st.name.getD "", st.retention.getD Span.infinite, st.aggregation.getD Span.zero⟩

/-- A chain as a record. -/
def chainShape : RecordShape m PolicyChain PolicyChain where
  expected := "struct TimeSeriesCollectionConfiguration"
  lengthExpected := "struct TimeSeriesCollectionConfiguration with 3 elements"
  fields := [("disabled", true), ("policies", true), ("raw_policy", true)]
  closed := false
  start := {}
  field i st := match i with
    | 0 => do pure { st with disabled := ← FieldSource.bool }
    | 1 => do pure { st with policies := ← FieldSource.seq (FieldSource.record policyShape) }
    | _ => do pure { st with raw := ← FieldSource.record policyShape }
  finish st := .ok st

/-- A configuration as a record; a collection named twice keeps its last chain. -/
def configurationShape : RecordShape m Configuration Configuration where
  expected := "struct TimeSeriesConfiguration"
  lengthExpected := "struct TimeSeriesConfiguration with 2 elements"
  fields := [("collections", true), ("policy_check_frequency", true)]
  closed := false
  start := {}
  field i st := match i with
    | 0 => do
      let cs ← FieldSource.map (FieldSource.record chainShape)
      pure { st with collections := FieldSource.lastWins cs }
    | _ => do pure { st with checkFrequency := ← FieldSource.option spanField }
  finish st := .ok st

/-- Validate a configuration as read, or report the failure to read it. -/
def ofRead (r : Except String Configuration) : Outcome Configuration :=
  match r with
  | .ok c => c.validate
  | .error e => .error (.configuration e)

/-- A configuration from JSON text. -/
def ofJsonText (text : String) : Outcome Configuration :=
  ofRead (FieldReader.decode (FieldSource.record configurationShape) text)

/-- A configuration from a JSON value. -/
def ofJson (j : Json) : Outcome Configuration :=
  ofRead ((FieldSource.record configurationShape : ValueReader Configuration).run j)

/-- A configuration from TOML text. -/
def ofToml (text : String) : Outcome Configuration :=
  ofRead (TomlReader.decode (FieldSource.record configurationShape) text)

/-- A configuration read from a JSON value, not yet validated. -/
def readJson (j : Json) : Outcome Configuration :=
  match (FieldSource.record configurationShape : ValueReader Configuration).run j with
  | .ok c => .ok c
  | .error e => .error (.configuration e)

/-- A policy read from a JSON value, not validated. -/
def readPolicyJson (j : Json) : Outcome Policy :=
  match (FieldSource.record policyShape : ValueReader Policy).run j with
  | .ok p => .ok p
  | .error e => .error (.configuration e)

end Configuration

end SeriesStore
