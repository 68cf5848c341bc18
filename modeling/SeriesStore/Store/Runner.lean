import SeriesStore.Store.Rollup
import SeriesStore.Store.Retention

/-!
# The policy runner

A database runs its policies once a configuration is in force. `loadConfiguration` puts one in
force, validated; none, one without collections, or an invalid one leaves none.

The runner works in passes, each a series of transactions: a failure ends the pass with the
transactions before it kept.

* `handleChanges`: a policy of a chain with no series yet gets the series of the policy before it
  scheduled at once, in batches.
* `runRollups`: batches of due rollups (of collections not disabled) are rolled up until none
  is due or a batch rolls up nothing.
* `doRetention`: on the primary, every policy with a finite retention trims its series, in
  batches, until a batch trims nothing.

Collections are taken in order of name. Each repeated pass is bounded by a count of batches that
the store's contents fix.
-/

namespace SeriesStore

/-- A pass of the runner: transactions in turn, each committed or dropped, the database kept
through a failure. -/
abbrev Pass := ExceptT Error (StateM Database)

namespace Pass

/-- Run a transaction on the database. -/
def txn {α : Type} (t : Txn α) : Pass α := ExceptT.mk fun db => db.write t

/-- The database as it stands. -/
def database : Pass Database := getThe Database

/-- Repeat a step while it asks for more, at most `fuel` times. -/
def repeatWhile {m : Type → Type} [Monad m] (step : m Bool) : Nat → m Unit
  | 0 => pure ()
  | fuel + 1 => do
    if ← step then repeatWhile step fuel

end Pass

namespace Database

/-- Put a configuration in force, validated; none, one without collections or an invalid one
leaves none in force. -/
def loadConfiguration (db : Database) (cfg : Option Configuration) : Database :=
  match cfg with
  | some c =>
    if c.collections.isEmpty then { db with configuration := none }
    else match c.validate with
      | .ok c => { db with configuration := some c }
      | .error _ => { db with configuration := none }
  | none => { db with configuration := none }

/-- Batches a repeated pass may need at most. -/
def passFuel (db : Database) : Nat :=
  let policies := match db.configuration with
    | some c => (c.collections.map fun (_, ch) => ch.policies.length + 1).sum
    | none => 0
  let stats := (db.tables.stats.map fun (_, t) => t.size).sum
  (db.tables.rollups.size + db.tables.segments.size + stats + 2) * (policies + 2)

/-- Whether a rollup entry's collection is not disabled. -/
def acceptsRollup (cfg : Configuration) (e : RollupEntry) : Bool :=
  match cfg.collection? e.series.collection with
  | some c => !c.disabled
  | none => true

end Database

namespace Pass

/-- One batch of the scheduling of policy `source`'s series for rollup into `target`, past the
key the batch before ended on: whether the batch was full. -/
def scheduleRound (collection : String) (source target : Policy) (take : Nat) :
    StateT (Option Key) Pass Bool := do
  let (marked, last) ← (txn (Txn.scheduleNewPolicy collection source target (← get) take) : Pass _)
  set last
  pure (marked ≥ take)

/-- Schedule, batch by batch, the series of policy `source` for rollup into `target`. -/
def scheduleNewPolicy (collection : String) (source target : Policy) : Pass Unit := do
  let db ← database
  discard ((repeatWhile (scheduleRound collection source target db.settings.policyBatch)
    db.passFuel).run none)

/-- Schedule existing series for every policy of a chain that has no series yet. -/
def handleChanges (cfg : Configuration) : Pass Unit := do
  for (collection, chain) in cfg.collections do
    let existing := (← database).tables.policiesInCollection collection
    let (_ : List String) ← chain.allPolicies.zipIdx.foldlM (fun (existing : List String) (p, i) => do
      if existing.contains (Text.lower p.name) then
        return existing.erase (Text.lower p.name)
      match (chain.previousPolicy i).policy? with
      | some previous => scheduleNewPolicy collection previous p
      | none => pure ()
      return existing) existing

/-- Roll up one batch of due entries: whether it rolled any up. -/
def rollupRound (cfg : Configuration) : Pass Bool := do
  let db ← database
  let batch := db.tables.dueRollups db.now.millis db.settings.rollupBatch
    (Database.acceptsRollup cfg)
  if batch.isEmpty then return false
  let n ← txn (Txn.rollupBatch cfg db.now db.isPrimary batch)
  pure (n > 0)

/-- Roll up batches of due entries until none is due or a batch rolls up nothing. -/
def runRollups (cfg : Configuration) : Pass Unit := do
  repeatWhile (rollupRound cfg) (← database).passFuel

/-- Trim one batch of the series of a policy up to a time: whether it trimmed any. -/
def retainRound (collection policy : String) (toMs : Int) : Pass Bool := do
  let db ← database
  let series := db.tables.seriesToRetain collection policy toMs db.settings.retentionBatch
  if series.isEmpty then return false
  let n ← txn (Txn.retain series toMs)
  pure (n > 0)

/-- Trim, batch by batch, the series of a policy up to a time. -/
def retainPolicy (collection policy : String) (toMs : Int) : Pass Unit := do
  repeatWhile (retainRound collection policy toMs) (← database).passFuel

/-- On the primary, trim every series past the retention of its policy. -/
def doRetention (cfg : Configuration) : Pass Unit := do
  let db ← database
  if !db.isPrimary then return
  let nowMs := db.now.millis
  for (collection, chain) in cfg.collections do
    if !chain.disabled then
      for p in chain.allPolicies do
        if !p.retention.isInfinite then
          retainPolicy collection p.name (p.retention.subtractFromMillis nowMs)

end Pass

end SeriesStore
