import SeriesStore.Decoding.Basic
import SeriesStore.Toml.Report
import SeriesStore.Number.Shortest

/-!
# Typed reading of TOML items

`TomlReader` reads typed values from an item of a TOML document. A failure takes the place of
the item it concerns: each read of a value gives an unplaced failure the item's span; a failure
in the value of a table entry whose item has no span (a table only implied) takes the key's, and
records the key. An unknown field of a closed record is placed at its key.

Tables and inline tables are maps, arrays and arrays of tables are sequences, and a date-time
is a map. A record read from an array takes its fields in order and leaves items beyond them
unread. Floats are worded as written by default: the shortest digits, positionally, with `.0`
when there is no point (`1.0`, `0.0001`, `NaN`, `inf`).
-/

namespace SeriesStore

/-- Typed reading of a TOML item. -/
abbrev TomlReader := ReaderT Toml.Item (Except Toml.Located)

namespace TomlReader

open Toml

/-- A finite double, positionally, from its sign and shortest digits. -/
def positional (c : Nat) (E : Int) : String :=
  let ds := toString c
  if 0 ≤ E then ds ++ String.ofList (List.replicate E.toNat '0')
  else
    let k : Int := ds.length + E
    if 0 < k then
      String.ofList (ds.toList.take k.toNat) ++ "." ++ String.ofList (ds.toList.drop k.toNat)
    else "0." ++ String.ofList (List.replicate (-k).toNat '0') ++ ds

/-- A double in words: positionally, with a point. -/
def floatWord (x : Float) : String :=
  if x.isNaN then "NaN"
  else if x.isInf then (if x > 0 then "inf" else "-inf")
  else
    let bits := x.toBits
    let sign := if bits.toNat ≥ 2 ^ 63 then "-" else ""
    let body := if bits.toNat % 2 ^ 63 = 0 then "0"
      else
        let (c, E) := Shortest.digits bits
        positional c E
    let s := sign ++ body
    if s.contains '.' then s else s ++ ".0"

/-- How TOML words what it found. -/
def wording : UnexpectedWording := ⟨"unit value", floatWord⟩

/-- What an item is, for failures. -/
def found : Item → Unexpected
  | .scalar (.str s) _ => .string s
  | .scalar (.int n) _ => .integer n
  | .scalar (.float x) _ => .float x
  | .scalar (.bool b) _ => .bool b
  | .scalar (.datetime _) _ => .map
  | .array _ _ | .tables _ _ => .seq
  | .table _ _ _ => .map

/-- Fail with a message, unplaced. -/
def failWith {α : Type} (message : String) : TomlReader α := throw (Located.unplaced message)

/-- Refuse the item in hand as not of the kind expected. -/
def unexpected {α : Type} (expected : String) : TomlReader α := do
  failWith (Decoding.invalidType wording (found (← read)) expected)

/-- Read the item in hand; an unplaced failure takes its span. -/
def placed {α : Type} (r : TomlReader α) : TomlReader α := fun item =>
  match r item with
  | .ok v => .ok v
  | .error e => .error (if e.span.isSome then e else { e with span := item.span? })

/-- Read an item of a sequence. -/
def element {α : Type} (v : Item) (r : TomlReader α) : TomlReader α := fun _ =>
  match r v with
  | .ok a => .ok a
  | .error e => .error (if e.span.isSome then e else { e with span := v.span? })

/-- Read the value of a table entry; an unplaced failure takes the value's span or the key's,
and the key is recorded. -/
def entry {α : Type} (k : Name) (v : Item) (r : TomlReader α) : TomlReader α := fun _ =>
  match r v with
  | .ok a => .ok a
  | .error e =>
    let span := if e.span.isSome then e.span else if (v.span?).isSome then v.span? else k.span
    .error { e with span := span, keys := k.text :: e.keys }

/-- The entries of a table of any kind. -/
def entriesOf : Item → Option (List (Name × Item))
  | .table es _ _ => some es
  | _ => none

/-- The items of an array or an array of tables. -/
def itemsOf : Item → Option (List Item)
  | .array items _ => some items
  | .tables items _ => some items
  | _ => none

/-- A string. -/
def string : TomlReader String := placed do
  match ← read with
  | .scalar (.str s) _ => pure s
  | _ => unexpected "a string"

/-- A boolean. -/
def bool : TomlReader Bool := placed do
  match ← read with
  | .scalar (.bool b) _ => pure b
  | _ => unexpected "a boolean"

/-- A whole number below `limit`. -/
def natural (limit : Nat) (expected : String) : TomlReader Nat := placed do
  match ← read with
  | .scalar (.int n) _ =>
    if 0 ≤ n ∧ n.toNat < limit then pure n.toNat
    else failWith (Decoding.invalidValue wording (.integer n) expected)
  | _ => unexpected expected

/-- A value that is present: TOML has no null. -/
def option {α : Type} (r : TomlReader α) : TomlReader (Option α) := some <$> r

/-- A sequence. -/
def seq {α : Type} (item : TomlReader α) : TomlReader (List α) := placed do
  match itemsOf (← read) with
  | some items => items.mapM fun v => element v item
  | none => unexpected "a sequence"

/-- A map, in the order of its entries. -/
def map {α : Type} (value : TomlReader α) : TomlReader (List (String × α)) := placed do
  match entriesOf (← read) with
  | some es => es.mapM fun (k, v) => do pure (k.text, ← entry k v value)
  | none => unexpected "a map"

/-- The fields of a record given as a table; `seen` holds the fields read. -/
def recordFields {σ α : Type} (r : RecordShape TomlReader σ α) :
    List (Name × Item) → List Nat → σ → TomlReader α
  | [], seen, st =>
    match r.firstMissing seen with
    | some name => failWith (Decoding.missingField name)
    | none => fun _ => (r.finish st).mapError Located.unplaced
  | (k, v) :: rest, seen, st =>
    match r.position? k.text with
    | some i =>
      if seen.contains i then failWith (Decoding.duplicateField k.text)
      else do
        let st ← entry k v (r.field i st)
        recordFields r rest (i :: seen) st
    | none =>
      if r.closed then throw ⟨Decoding.unknownField k.text r.names, k.span, []⟩
      else recordFields r rest seen st

/-- The fields of a record given as an array, from field `i` on. -/
def recordItems {σ α : Type} (r : RecordShape TomlReader σ α) :
    List (String × Bool) → Nat → List Item → σ → TomlReader α
  | [], _, _, st => fun _ => (r.finish st).mapError Located.unplaced
  | (_, hasDefault) :: fields, i, items, st =>
    match items with
    | v :: more => do
      let st ← element v (r.field i st)
      recordItems r fields (i + 1) more st
    | [] =>
      if hasDefault then recordItems r fields (i + 1) [] st
      else failWith (Decoding.invalidLength i r.lengthExpected)

/-- A record, given as a table or as an array. -/
def record {σ α : Type} (r : RecordShape TomlReader σ α) : TomlReader α := placed do
  let item ← read
  match entriesOf item, itemsOf item with
  | some es, _ => recordFields r es [] r.start
  | none, some items => recordItems r r.fields 0 items r.start
  | none, none => unexpected r.expected

end TomlReader

instance : FieldSource TomlReader where
  string := TomlReader.string
  bool := TomlReader.bool
  natural := TomlReader.natural
  option := TomlReader.option
  seq := TomlReader.seq
  map := TomlReader.map
  record := TomlReader.record
  fail := TomlReader.failWith

namespace TomlReader

/-- Read a TOML text with a reader of its root table; a failure is reported against the
text. -/
def decode {α : Type} (r : TomlReader α) (text : String) : Except String α :=
  match Toml.parse text with
  | .error e => .error ((e.locate text).render text)
  | .ok root =>
    match r root with
    | .ok v => .ok v
    | .error e => .error (e.render text)

end TomlReader

end SeriesStore
