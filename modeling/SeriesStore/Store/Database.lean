import SeriesStore.Store.Rows
import SeriesStore.Replication.ChangeVector
import SeriesStore.Replication.Topology
import SeriesStore.Policy
import SeriesStore.Time.Instant

/-!
# A node's database

A database lives on one node of a cluster. Besides its tables it keeps the last etag it gave
out and its change vector, the topology that says whether it is the primary, a clock that can be
pinned, and the time-series configuration in force, if any.

Every change runs as a transaction (`Txn`): it reads the context (settings, clock,
configuration, topology), changes a working copy of the tables, and either commits the copy or,
on a failure, drops it. Etags given out and vectors observed are never taken back: a failed
transaction leaves a gap in the etags.
-/

namespace SeriesStore

/-- Settings of a node's database and of its time-series engine. -/
structure Settings where
  name : String := "aegis"
  nodeTag : String := "A"
  databaseId : String := "aegis-db-0001"
  /-- Pending rollups taken per batch. -/
  rollupBatch : Nat := 1024
  /-- Series trimmed per retention batch. -/
  retentionBatch : Nat := 1024
  /-- Series scheduled per batch for a new policy. -/
  policyBatch : Nat := 1024
  /-- Milliseconds between policy checks when the configuration names none. -/
  checkMillis : Nat := 600000
  deriving Repr, Inhabited, DecidableEq

/-- The settings of a named database on a node. -/
def Settings.forNode (name nodeTag databaseId : String) : Settings := { name, nodeTag, databaseId }

/-- What survives a failed transaction: the last etag given out and the change vector. -/
structure Versions where
  lastEtag : Int := 0
  changeVector : ChangeVector := {}
  deriving Inhabited

/-- What a transaction reads but does not change. -/
structure Context where
  settings : Settings
  now : Instant
  configuration : Option Configuration
  primary : Bool

/-- A transaction: reads the context, changes the tables, gives out etags. -/
abbrev Txn := ReaderT Context (StateT Tables (ExceptT Error (StateM Versions)))

/-- A database on one node. -/
structure Database where
  settings : Settings
  tables : Tables := {}
  versions : Versions := {}
  topology : Topology
  now : Instant
  configuration : Option Configuration := none

namespace Database

/-- A fresh database, the single member of its topology. -/
def create (settings : Settings) (now : Instant) : Database :=
  { settings, topology := { members := [settings.nodeTag] }, now }

/-- Whether this node runs rollups and retention. -/
def isPrimary (db : Database) : Bool := db.topology.isPrimary db.settings.nodeTag

/-- The context of a transaction. -/
def context (db : Database) : Context :=
  { settings := db.settings, now := db.now, configuration := db.configuration,
    primary := db.isPrimary }

/-- Run a transaction: commit its tables on success, drop them on failure. -/
def write {α : Type} (db : Database) (t : Txn α) : Outcome α × Database :=
  let (r, versions) := ((t.run db.context).run db.tables).run.run db.versions
  match r with
  | .ok (a, tables) => (.ok a, { db with tables, versions })
  | .error e => (.error e, { db with versions })

/-- The change vector as text. -/
def changeVectorText (db : Database) : String := db.versions.changeVector.render

end Database

namespace Txn

/-- Fail with an error. -/
def fail {α : Type} (e : Error) : Txn α := throw e

/-- Take the value of an outcome, or fail with its error. -/
def lift {α : Type} (r : Outcome α) : Txn α :=
  match r with
  | .ok a => pure a
  | .error e => throw e

/-- Take the value of a computation that may fault. -/
def liftFault {α : Type} (r : Except Fault α) : Txn α :=
  match r with
  | .ok a => pure a
  | .error f => throw (.fault f)

/-- The tables as the transaction sees them. -/
def tables : Txn Tables := get

/-- Read the tables. -/
def reads {α : Type} (f : Tables → α) : Txn α := do pure (f (← get))

/-- Read the tables, failing where the reading does. -/
def readsOutcome {α : Type} (f : Tables → Outcome α) : Txn α := do lift (f (← get))

/-- Change the tables. -/
def change (f : Tables → Tables) : Txn Unit := modify f

/-- The context. -/
def context : Txn Context := read

/-- The current time. -/
def now : Txn Instant := do pure (← read).now

/-- The configuration in force. -/
def configuration : Txn (Option Configuration) := do pure (← read).configuration

/-- Give out the next etag. -/
def nextEtag : Txn Int := do
  let v ← (getThe Versions : StateM Versions Versions)
  let e := v.lastEtag + 1
  (set { v with lastEtag := e } : StateM Versions Unit)
  pure e

/-- Stamp a local write made under `etag`: this node's entry is observed into the database's
vector, which comes back as text. -/
def newChangeVector (etag : Int) : Txn String := do
  let s := (← read).settings
  let v ← (getThe Versions : StateM Versions Versions)
  let cv := v.changeVector.observe { node := s.nodeTag, etag, db := s.databaseId }
  (set { v with changeVector := cv } : StateM Versions Unit)
  pure cv.render

/-- Merge a replicated change vector into the database's vector. -/
def observeChangeVector (text : String) : Txn Unit := do
  let remote ← lift (ChangeVector.parse text)
  let v ← (getThe Versions : StateM Versions Versions)
  (set { v with changeVector := v.changeVector.merge remote } : StateM Versions Unit)

end Txn

end SeriesStore
