import SeriesStore.Decoding.Basic
import SeriesStore.Json.Value
import SeriesStore.Json.Render

/-!
# Typed reading of JSON values

`ValueReader` reads typed values from a JSON value already in hand. Its failures carry no
place. The entries of an object are taken in the order of their keys, and a record read from an
array refuses items beyond its fields: `invalid length 4, expected fewer elements in array`.
-/

namespace SeriesStore

/-- Typed reading of a JSON value. -/
abbrev ValueReader := ReaderT Json (Except String)

namespace ValueReader

/-- How JSON words what it found: `null`, and numbers in their shortest form. -/
def wording : UnexpectedWording := ⟨"null", Json.floatWord⟩

/-- What a value is, for failures. -/
def found : Json → Unexpected
  | .null => .null
  | .bool b => .bool b
  | .int n => .integer n
  | .float x => .float x
  | .str s => .string s
  | .arr _ => .seq
  | .obj _ => .map

/-- Refuse the value in hand as not of the kind expected. -/
def unexpected {α : Type} (expected : String) : ValueReader α := do
  throw (Decoding.invalidType wording (found (← read)) expected)

/-- Run a reader on another value. -/
def on {α : Type} (j : Json) (r : ValueReader α) : ValueReader α := fun _ => r j

/-- The entries of an object in the order of their keys. -/
def sorted (fields : List (String × Json)) : List (String × Json) :=
  fields.mergeSort fun a b => decide (a.1 ≤ b.1)

/-- A string. -/
def string : ValueReader String := do
  match ← read with
  | .str s => pure s
  | _ => unexpected "a string"

/-- A boolean. -/
def bool : ValueReader Bool := do
  match ← read with
  | .bool b => pure b
  | _ => unexpected "a boolean"

/-- A whole number below `limit`. -/
def natural (limit : Nat) (expected : String) : ValueReader Nat := do
  match ← read with
  | .int n =>
    if 0 ≤ n ∧ n.toNat < limit then pure n.toNat
    else throw (Decoding.invalidValue wording (.integer n) expected)
  | _ => unexpected expected

/-- A value that may be `null`. -/
def option {α : Type} (r : ValueReader α) : ValueReader (Option α) := do
  match ← read with
  | .null => pure none
  | _ => some <$> r

/-- A sequence. -/
def seq {α : Type} (item : ValueReader α) : ValueReader (List α) := do
  match ← read with
  | .arr items => items.mapM fun j => on j item
  | _ => unexpected "a sequence"

/-- A map. -/
def map {α : Type} (value : ValueReader α) : ValueReader (List (String × α)) := do
  match ← read with
  | .obj fields => (sorted fields).mapM fun (k, j) => do pure (k, ← on j value)
  | _ => unexpected "a map"

/-- The fields of a record given as an object; `seen` holds the fields read. -/
def recordFields {σ α : Type} (r : RecordShape ValueReader σ α) :
    List (String × Json) → List Nat → σ → ValueReader α
  | [], seen, st =>
    match r.firstMissing seen with
    | some name => throw (Decoding.missingField name)
    | none => liftM r.finish st
  | (k, j) :: rest, seen, st =>
    match r.position? k with
    | some i =>
      if seen.contains i then throw (Decoding.duplicateField k)
      else do
        let st ← on j (r.field i st)
        recordFields r rest (i :: seen) st
    | none =>
      if r.closed then throw (Decoding.unknownField k r.names)
      else recordFields r rest seen st
where
  liftM (f : σ → Except String α) (st : σ) : ValueReader α := fun _ => f st

/-- The fields of a record given as an array, from field `i` on; items beyond the fields are
refused. -/
def recordItems {σ α : Type} (r : RecordShape ValueReader σ α) (total : Nat) :
    List (String × Bool) → Nat → List Json → σ → ValueReader α
  | [], _, rest, st =>
    if rest.isEmpty then fun _ => r.finish st
    else throw (Decoding.invalidLength total "fewer elements in array")
  | (_, hasDefault) :: fields, i, items, st =>
    match items with
    | j :: more => do
      let st ← on j (r.field i st)
      recordItems r total fields (i + 1) more st
    | [] =>
      if hasDefault then recordItems r total fields (i + 1) [] st
      else throw (Decoding.invalidLength i r.lengthExpected)

/-- A record, given as an object or as an array. -/
def record {σ α : Type} (r : RecordShape ValueReader σ α) : ValueReader α := do
  match ← read with
  | .obj fields => recordFields r (sorted fields) [] r.start
  | .arr items => recordItems r items.length r.fields 0 items r.start
  | _ => unexpected r.expected

end ValueReader

instance : FieldSource ValueReader where
  string := ValueReader.string
  bool := ValueReader.bool
  natural := ValueReader.natural
  option := ValueReader.option
  seq := ValueReader.seq
  map := ValueReader.map
  record := ValueReader.record
  fail := fun e => throw e

end SeriesStore
