import SeriesStore.Store.Database

/-!
# Documents and the series they own

A document is a JSON object kept under its id in lower case. Its `@metadata` object names its
collection (`@collection`), lists the names of its series (`@timeseries`) and carries flags
(`@flags`, a comma-separated text), among them `HasTimeSeries` while it owns series.

The list of series names is kept in order of their lower-case forms. A name is looked up by
halving the list (`searchSorted`), so on a list that is out of order the answer is what the
halving finds. Only the entries of the list that are strings count as names.
-/

namespace SeriesStore

/-- Where a halving search over a list ends: at an equal item, or at the place where the item
sought would go. -/
inductive SearchResult where
  | found (i : Nat)
  | missing (i : Nat)
  deriving Repr, DecidableEq

/-- Halve the window `[base, base + size)` until one item is left; `cmp` tells how an item
compares with the one sought. Each step keeps the upper half unless the middle item is
greater. -/
def halve {α : Type} (cmp : α → Ordering) (xs : List α) : Nat → Nat → Nat → Nat
  | 0, base, _ => base
  | fuel + 1, base, size =>
    if size ≤ 1 then base
    else
      let half := size / 2
      let mid := base + half
      let base := match xs[mid]? with
        | some x => if cmp x == .gt then base else mid
        | none => base
      halve cmp xs fuel base (size - half)

/-- Search a list by halving, without stopping early at an equal item. -/
def searchSorted {α : Type} (cmp : α → Ordering) (xs : List α) : SearchResult :=
  if xs.isEmpty then .missing 0
  else
    let base := halve cmp xs xs.length 0 xs.length
    match xs[base]? with
    | some x =>
      match cmp x with
      | .eq => .found base
      | .lt => .missing (base + 1)
      | .gt => .missing base
    | none => .missing base

/-- Compare two names without case. -/
def compareNames (a b : String) : Ordering := compare (Text.lower a) (Text.lower b)

namespace Document

/-- The key of a document. -/
def keyOf (id : String) : Key := Key.lowerBytes id

/-- The flag of a document that owns series. -/
def seriesFlag : String := "HasTimeSeries"

/-- The metadata object, if there is one. -/
def metadata? (d : Document) : Option (List (String × Json)) :=
  (d.data.get? "@metadata").bind Json.asObject?

/-- The collection named in the metadata. -/
def collection? (d : Document) : Option String :=
  (d.metadata?.bind fun m => m.lookup "@collection").bind Json.asString?

/-- The names of the document's series, in stored order. -/
def seriesNames (d : Document) : List String :=
  match (d.metadata?.bind fun m => m.lookup "@timeseries").bind Json.asArray? with
  | some names => names.filterMap Json.asString?
  | none => []

/-- The flags of a metadata object, each trimmed. -/
def flagsOf (m : List (String × Json)) : Option (List String) :=
  ((m.lookup "@flags").bind Json.asString?).map fun f => (f.splitOn ",").map Text.trim

/-- Whether the document carries the series flag. -/
def hasSeriesFlag (d : Document) : Bool :=
  match d.metadata?.bind flagsOf with
  | some flags => flags.contains seriesFlag
  | none => false

/-- Set or clear the series flag, keeping the other flags; no flag left removes the field. -/
def setSeriesFlag (on : Bool) (m : List (String × Json)) : List (String × Json) :=
  let others := ((flagsOf m).getD []).filter fun f => !f.isEmpty && f != seriesFlag
  let flags := if on then others ++ [seriesFlag] else others
  if flags.isEmpty then Json.eraseField m "@flags"
  else Json.setField m "@flags" (.str (", ".intercalate flags))

/-- Change the metadata object, creating it when missing. -/
def updateMetadata (d : Document) (f : List (String × Json) → List (String × Json)) :
    Outcome Document :=
  match d.data with
  | .obj root =>
    match root.lookup "@metadata" with
    | none => .ok { d with data := .obj (Json.setField root "@metadata" (.obj (f []))) }
    | some (.obj m) => .ok { d with data := .obj (Json.setField root "@metadata" (.obj (f m))) }
    | some _ => .error (.invalidValue ("document " ++ d.id ++ " has bad metadata"))
  | _ => .error (.invalidValue ("document " ++ d.id ++ " is not an object"))

/-- A document ready to be stored in a collection: its data must be an object, and its
metadata takes the collection's name. -/
def make (id collection : String) (data : Json) : Outcome Document := do
  Key.validateDocumentId id
  if !data.isObject then
    throw (.invalidValue ("document " ++ id ++ " must be a JSON object"))
  updateMetadata { id, data } fun m => Json.setField m "@collection" (.str collection)

/-- The names after adding one, or `none` when it is there already and flagged. -/
def addName (d : Document) (name : String) : Option (List String) :=
  let names := d.seriesNames
  match searchSorted (fun n => compareNames n name) names with
  | .found _ => if d.hasSeriesFlag then none else some names
  | .missing i => some (names.take i ++ name :: names.drop i)

/-- The names after removing one, or `none` when it is not found. -/
def removeName (d : Document) (name : String) : Option (List String) :=
  match searchSorted (fun n => compareNames n name) d.seriesNames with
  | .found i => some (d.seriesNames.eraseIdx i)
  | .missing _ => none

end Document

namespace Tables

/-- The document with an id, compared without case. -/
def document? (t : Tables) (id : String) : Option Document :=
  (t.documents.get? (Document.keyOf id)).map (·.value)

/-- Whether a document exists. -/
def hasDocument (t : Tables) (id : String) : Bool := t.documents.contains (Document.keyOf id)

/-- The names of a document's series; none for a missing document. -/
def seriesNames (t : Tables) (id : String) : List String :=
  match t.document? id with
  | some d => d.seriesNames
  | none => []

/-- Store a document under its id. -/
def storeDocument (t : Tables) (d : Document) : Tables :=
  { t with documents := (t.documents.insert (Document.keyOf d.id) d none).1 }

/-- Remove a document; whether there was one. -/
def deleteDocument (t : Tables) (id : String) : Tables × Bool :=
  let (docs, prev) := t.documents.remove (Document.keyOf id)
  ({ t with documents := docs }, prev.isSome)

/-- Store a document in a collection. -/
def putDocument (t : Tables) (id collection : String) (data : Json) : Outcome Tables := do
  pure (t.storeDocument (← Document.make id collection data))

/-- List a series name on its document, flagging it. False when the document is missing or
already lists the name and is flagged. -/
def addSeriesName (t : Tables) (id name : String) : Outcome (Tables × Bool) :=
  match t.document? id with
  | none => .ok (t, false)
  | some d =>
    match d.addName name with
    | none => .ok (t, false)
    | some names => do
      let d ← d.updateMetadata fun m =>
        Document.setSeriesFlag true (Json.setField m "@timeseries" (.arr (names.map .str)))
      pure (t.storeDocument d, true)

/-- Take a series name off its document; the last one clears the flag. False when nothing
changed. -/
def removeSeriesName (t : Tables) (id name : String) : Outcome (Tables × Bool) :=
  match t.document? id with
  | none => .ok (t, false)
  | some d =>
    match d.removeName name with
    | none => .ok (t, false)
    | some names => do
      let d ← d.updateMetadata fun m =>
        if names.isEmpty then Document.setSeriesFlag false (Json.eraseField m "@timeseries")
        else Json.setField m "@timeseries" (.arr (names.map .str))
      pure (t.storeDocument d, true)

end Tables

end SeriesStore
