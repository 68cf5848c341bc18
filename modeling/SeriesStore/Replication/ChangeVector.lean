import SeriesStore.Error
import SeriesStore.Number.Word
import SeriesStore.Text.Lower

/-!
# Change vectors

A change vector records, for every database that wrote to an item, the newest etag seen from
it, with the tag of the node that holds that database: `A:5-db1, B:3-db2`. A vector lists one
entry per database id. A new database is inserted in order of node tag, then database id.
Observing an entry for a database already listed keeps the larger etag: a newer entry takes the
listed one's place, with its own node tag, and the vector is not sorted again, so its entries
are in order only while every database keeps the tag of one node. Merging observes every entry
of the other vector.

Two vectors are compared database by database: the remote one is already merged when it has
nothing newer than the local one, an update when only it has something newer, and a conflict
when both have. A text is thus already merged into its merge with another: when
`mergeVectors r l = .ok m`, `conflictStatus r m = .ok .alreadyMerged`, unless neither text
lists an entry and `r` is not blank.
-/

namespace SeriesStore

/-- The newest etag seen from one database, with the tag of its node. -/
structure CvEntry where
  node : String
  etag : Int
  db : String
  deriving Repr, DecidableEq, Inhabited

/-- The text of an entry: `node:etag-db`. -/
def CvEntry.render (e : CvEntry) : String := e.node ++ ":" ++ toString e.etag ++ "-" ++ e.db

/-- Read one entry: the node tag up to the first colon, the etag up to the next dash, the
database id after it; blanks around the entry are dropped, and both tag and id must be
non-empty. -/
def CvEntry.parse (s : String) : Outcome CvEntry :=
  let s := Text.trim s
  let invalid : Outcome CvEntry := .error (.invalidChangeVector s)
  let cs := s.toList
  match cs.idxOf? ':' with
  | none => invalid
  | some i =>
    let node := cs.take i
    let rest := cs.drop (i + 1)
    match rest.idxOf? '-' with
    | none => invalid
    | some j =>
      let etag := String.ofList (rest.take j)
      let db := rest.drop (j + 1)
      if node.isEmpty || db.isEmpty then invalid
      else match I64.parse? etag with
        | some n => .ok { node := String.ofList node, etag := n, db := String.ofList db }
        | none => invalid

/-- How a remote vector relates to a local one. -/
inductive ConflictStatus where
  | alreadyMerged
  | update
  | conflict
  deriving Repr, DecidableEq, Inhabited

/-- Entries sorted by node tag, then database id, one per database id. -/
structure ChangeVector where
  entries : List CvEntry := []
  deriving Repr, DecidableEq, Inhabited

namespace ChangeVector

/-- The vector with one entry. -/
def single (node : String) (etag : Int) (db : String) : ChangeVector := ⟨[{ node, etag, db }]⟩

/-- Whether the vector has no entry. -/
def isEmpty (v : ChangeVector) : Bool := v.entries.isEmpty

/-- The etag seen from a database, zero when it is not listed. -/
def get (v : ChangeVector) (db : String) : Int :=
  ((v.entries.find? (·.db == db)).map (·.etag)).getD 0

/-- The order of entries: by node tag, then database id. -/
def entryLe (a b : CvEntry) : Bool :=
  match compare a.node b.node with
  | .lt => true
  | .gt => false
  | .eq => compare a.db b.db != .gt

/-- Take in one entry: a listed database keeps the larger etag, in its place; a new one is
inserted in order. -/
def observe (v : ChangeVector) (e : CvEntry) : ChangeVector :=
  if v.entries.any (·.db == e.db) then
    ⟨v.entries.map fun x => if x.db == e.db && e.etag > x.etag then e else x⟩
  else ⟨(v.entries ++ [e]).mergeSort entryLe⟩

/-- Take in every entry of another vector. -/
def merge (v w : ChangeVector) : ChangeVector := w.entries.foldl observe v

/-- Read a vector: entries separated by commas, empty parts skipped. -/
def parse (s : String) : Outcome ChangeVector :=
  let parts := ((s.toList.splitOn ',').map fun p => Text.trim (String.ofList p)).filter (!·.isEmpty)
  parts.foldlM (fun v p => do
    let e ← CvEntry.parse p
    pure (v.observe e)) {}

/-- The text of a vector: its entries joined by a comma and a space. -/
def render (v : ChangeVector) : String := ", ".intercalate (v.entries.map CvEntry.render)

/-- Compare a remote vector with a local one. -/
def compare (remote loc : ChangeVector) : ConflictStatus :=
  if remote.isEmpty then .alreadyMerged
  else if loc.isEmpty then .update
  else
    let remoteNewer := remote.entries.any fun e => e.etag > loc.get e.db
    let localNewer := loc.entries.any fun e => e.etag > remote.get e.db
    match remoteNewer, localNewer with
    | true, false => .update
    | true, true => .conflict
    | _, _ => .alreadyMerged

end ChangeVector

/-- Compare two vectors given as text; equal or blank remote text is already merged, blank
local text makes any remote an update. -/
def conflictStatus (remote loc : String) : Outcome ConflictStatus :=
  if remote == loc || (Text.trim remote).isEmpty then .ok .alreadyMerged
  else if (Text.trim loc).isEmpty then .ok .update
  else do
    let r ← ChangeVector.parse remote
    let l ← ChangeVector.parse loc
    pure (ChangeVector.compare r l)

/-- Merge two vectors given as text, into canonical text. -/
def mergeVectors (a b : String) : Outcome String := do
  let va ← ChangeVector.parse a
  let vb ← ChangeVector.parse b
  pure (va.merge vb).render

end SeriesStore
