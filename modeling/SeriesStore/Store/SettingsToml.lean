import SeriesStore.Store.Database
import SeriesStore.Decoding.Toml

/-!
# Database settings from TOML

The settings of a database are read from a TOML document whose fields all have defaults:
`name`, `node_tag` and `database_id` at the root, and under `timeseries` the three batch sizes
(`rollup_batch_size`, `retention_batch_size`, `policy_batch_size`) and
`default_policy_check_frequency`, a duration written as `{ secs, nanos }`. Unknown fields are
passed over. A duration names both of its fields and no other; its milliseconds count its
nanoseconds down to whole milliseconds. A failure to read is a configuration error.
-/

namespace SeriesStore

namespace Settings

variable {m : Type → Type} [Monad m] [FieldSource m]

/-- The largest value of an unsigned 64-bit word, plus one. -/
def wordLimit : Nat := 2 ^ 64

/-- The fields of a duration read so far. -/
structure DurationFields where
  secs : Option Nat := none
  nanos : Option Nat := none

/-- A duration, as milliseconds, read as a closed record of seconds and nanoseconds. -/
def durationShape : RecordShape m DurationFields Nat where
  expected := "struct Duration"
  lengthExpected := "struct Duration"
  fields := [("secs", false), ("nanos", false)]
  closed := true
  start := {}
  field i st := match i with
    | 0 => do pure { st with secs := some (← FieldSource.natural wordLimit "u64") }
    | _ => do pure { st with nanos := some (← FieldSource.natural (2 ^ 32) "u32") }
  finish st :=
    let secs := st.secs.getD 0
    let nanos := st.nanos.getD 0
    if secs + nanos / 1000000000 ≥ wordLimit then .error "overflow deserializing Duration"
    else .ok (secs * 1000 + nanos / 1000000)

/-- The engine's settings, read over the settings given; the other fields are left as they
are. -/
def engineShape (base : Settings) : RecordShape m Settings Settings where
  expected := "struct TimeSeriesEngineConfig"
  lengthExpected := "struct TimeSeriesEngineConfig with 4 elements"
  fields := [("rollup_batch_size", true), ("retention_batch_size", true),
    ("policy_batch_size", true), ("default_policy_check_frequency", true)]
  closed := false
  start := base
  field i st := match i with
    | 0 => do pure { st with rollupBatch := ← FieldSource.natural wordLimit "usize" }
    | 1 => do pure { st with retentionBatch := ← FieldSource.natural wordLimit "usize" }
    | 2 => do pure { st with policyBatch := ← FieldSource.natural wordLimit "usize" }
    | _ => do pure { st with checkMillis := ← FieldSource.record durationShape }
  finish st := .ok st

/-- The settings of a database, every field defaulted. -/
def settingsShape : RecordShape m Settings Settings where
  expected := "struct DatabaseConfig"
  lengthExpected := "struct DatabaseConfig with 4 elements"
  fields := [("name", true), ("node_tag", true), ("database_id", true), ("timeseries", true)]
  closed := false
  start := {}
  field i st := match i with
    | 0 => do pure { st with name := ← FieldSource.string }
    | 1 => do pure { st with nodeTag := ← FieldSource.string }
    | 2 => do pure { st with databaseId := ← FieldSource.string }
    | _ => do
      let e ← FieldSource.record (engineShape {})
      pure { st with rollupBatch := e.rollupBatch, retentionBatch := e.retentionBatch,
                     policyBatch := e.policyBatch, checkMillis := e.checkMillis }
  finish st := .ok st

/-- Settings from TOML text. -/
def ofToml (text : String) : Outcome Settings :=
  match TomlReader.decode (FieldSource.record settingsShape) text with
  | .ok s => .ok s
  | .error e => .error (.configuration e)

end Settings

end SeriesStore
