import SeriesStore.Store.Json
import SeriesStore.Store.Runner
import SeriesStore.Policy.Json
import SeriesStore.Policy.Decode

/-!
# A cluster of nodes and the commands it takes

A cluster is a list of databases, one per node, all on a pinned clock. A `Command` is one
operation on one node: a write runs as a transaction, a read looks at the committed tables, a
runner pass runs its transactions in turn, and shipping reads one node's feed and applies it to
another.

Every command has a `Reply`: a value (with extra fields for shipping), a failure of the store,
or a refusal when the node cannot take the command (a runner pass without a configuration in
force). Answers carry the node's last etag, except for a fault.
-/

namespace SeriesStore

/-- A sample as a command gives it: milliseconds, then microseconds added to them. -/
structure SampleInput where
  ms : Int
  micros : Int := 0
  values : List Double
  tag : Option String := none
  dead : Bool := false

/-- The sample of an input; an instant moved out of range is a fault. -/
def SampleInput.toSample (x : SampleInput) : Outcome Sample :=
  match (Instant.ofMillis x.ms).shift? (x.micros * 1000) with
  | some time => .ok { time, values := x.values, tag := x.tag,
                       status := if x.dead then .dead else .live }
  | none => .error (.fault .overflow)

/-- An operation on one node. -/
inductive Command where
  | putDocument (id collection : String) (data : Json)
  | getDocument (id : String)
  | deleteDocument (id : String)
  | addName (doc name : String)
  | removeName (doc name : String)
  | append (series : SeriesRef) (samples : List SampleInput) (cv : Option String)
  | deleteRange (series : SeriesRef) (fromMs toMs : Int) (cv : Option String)
  | deleteDocumentSeries (doc collection : String)
  | read (w : SeriesWindow)
  | firstLast (w : SeriesWindow)
  | segmentsOrValues (w : SeriesWindow)
  | summary (w : SeriesWindow)
  | firstChangeVector (w : SeriesWindow)
  | aggregate (w : SeriesWindow) (step : Outcome Span) (mode : AggregationMode)
  | aggregateByKind (w : SeriesWindow) (step : Outcome Span) (kind : AggregationKind)
  | stats (doc name : String)
  | names (doc : String)
  | feed (fromEtag : Int) (take : Nat)
  | feedCollection (collection : String) (fromEtag : Int) (take : Nat)
  | feedDeleted (fromEtag : Int) (take : Nat)
  | lastEtags (collection : String)
  | purge (collection : String) (upto : Option Int) (max : Nat)
  | ship (target : Nat) (fromEtag : Int) (take : Nat) (whole : Bool)
  | shipDeleted (target : Nat) (fromEtag : Int) (take : Nat)
  | applySegment (item : SegmentItem) (whole : Bool)
  | setTime (ms : Int)
  | configure (cfg : Option Json)
  | setTopology (members : List String)
  | mark (series : SeriesRef) (ms : Int) (dead : Bool)
  | prepare (now : Option Int) (take : Nat)
  | hasPending (doc name : String) (ms : Int)
  | addNewPolicy (collection : String) (source target : Json) (after : Option Key) (take : Nat)
  | rollup (now : Option Int) (take : Nat) (primary : Option Bool)
  | toRetain (collection policy : String) (cutoff : Int) (take : Nat)
  | retain (collection policy : String) (cutoff : Int) (take : Nat)
  | runRollups
  | doRetention
  | handleChanges
  | changeVector
  | dump (decoded : Bool)

/-- What a command answers. -/
inductive Reply where
  | ok (value : Json) (extra : List (String × Json))
  | failed (e : Error)
  | refused (message : String)

/-- The reply of a store operation. -/
def Reply.ofOutcome (r : Outcome Json) : Reply :=
  match r with
  | .ok v => .ok v []
  | .error e => .failed e

/-- An optional text as JSON. -/
def Json.ofOption (t : Option String) : Json :=
  match t with
  | some t => .str t
  | none => .null

/-- The nodes of a cluster. -/
abbrev Cluster := Array Database

namespace Cluster

/-- A cluster of fresh nodes, each given its tag and database id, on a clock pinned at `now`. -/
def create (nodes : List (String × String)) (now : Int) : Cluster :=
  (nodes.map fun (tag, dbId) =>
    Database.create (Settings.forNode "db" tag dbId) (Instant.ofMillis now)).toArray

/-- Run a transaction on a node. -/
def write {α : Type} (c : Cluster) (i : Nat) (db : Database) (t : Txn α) (enc : α → Json) :
    Cluster × Reply :=
  let (r, db') := db.write t
  (c.modify i fun _ => db', .ofOutcome (r.map enc))

/-- Run a runner pass on a node, which needs a configuration in force. -/
def pass (c : Cluster) (i : Nat) (db : Database) (p : Configuration → Pass Unit) :
    Cluster × Reply :=
  match db.configuration with
  | none => (c, .refused "no runner")
  | some cfg =>
    let (r, db') := (p cfg).run.run db
    (c.modify i fun _ => db', .ofOutcome (r.map fun _ => .null))

/-- Apply items to a target node, each in its own transaction, stopping at the first
failure. -/
def applyAll {β : Type} (target : Database) (items : List β) (t : β → Txn Json) :
    Database × Outcome (List Json) :=
  items.foldl (fun (acc : Database × Outcome (List Json)) item =>
    match acc.2 with
    | .error e => (acc.1, .error e)
    | .ok out =>
      let (r, d) := acc.1.write (t item)
      (d, r.map fun v => out ++ [v])) (target, .ok [])

/-- Ship items to node `dst`. -/
def shipTo {β : Type} (c : Cluster) (dst : Nat) (items : List β) (t : β → Txn Json) :
    Cluster × Reply :=
  match getElem? c dst with
  | none => (c, .refused "bad node")
  | some target =>
    let (target, r) := applyAll target items t
    (c.modify dst fun _ => target, match r with
      | .ok vs => .ok (.arr vs) [("target_etag", .int target.versions.lastEtag)]
      | .error e => .failed e)

/-- A read of the committed tables. -/
def reading (c : Cluster) (r : Outcome Json) : Cluster × Reply := (c, .ofOutcome r)

/-- Run a command on node `i`. -/
def run (c : Cluster) (i : Nat) (cmd : Command) : Cluster × Reply :=
  match getElem? c i with
  | none => (c, .refused "bad node")
  | some db =>
    let t := db.tables
    match cmd with
    | .putDocument id collection data =>
      c.write i db (do set (← Txn.lift ((← Txn.tables).putDocument id collection data)))
        fun _ => .null
    | .getDocument id => c.reading (.ok ((t.document? id).map (·.data) |>.getD .null))
    | .deleteDocument id =>
      c.write i db (do
        let (t, b) := (← Txn.tables).deleteDocument id
        set t
        pure b) .bool
    | .addName doc name => c.write i db (Txn.addSeriesName doc name) .bool
    | .removeName doc name => c.write i db (Txn.removeSeriesName doc name) .bool
    | .append series samples cv =>
      match samples.mapM SampleInput.toSample with
      | .error e => (c, .failed e)
      | .ok samples => c.write i db (Txn.appendSamples series samples cv cv.isSome) Json.ofOption
    | .deleteRange series fromMs toMs cv =>
      c.write i db (Txn.deleteRange series (Instant.ofMillis fromMs).millis
        (Instant.ofMillis toMs).millis cv) Json.ofOption
    | .deleteDocumentSeries doc collection =>
      c.write i db (Txn.deleteDocumentSeries doc collection) fun n => .int n
    | .read w => c.reading (do pure (.arr ((← w.values t).map Sample.toJson)))
    | .firstLast w => c.reading (do
        let first ← w.first t
        let last ← w.last t
        let any ← w.any t
        pure (.obj [("first", Sample.optJson first), ("last", Sample.optJson last),
          ("any", .bool any)]))
    | .segmentsOrValues w => c.reading (do
        let items ← (w.segmentsOrValues t).mapM id
        pure (.arr (items.map SegmentOrValues.toJson)))
    | .summary w => c.reading (do
        pure ((← w.summary t).map WindowSummary.toJson |>.getD .null))
    | .firstChangeVector w => c.reading (do pure (Json.ofOption (← w.firstChangeVector t)))
    | .aggregate w step mode => c.reading (do
        let g ← BucketGrid.ofSpan (← step)
        pure (.arr ((← w.aggregatedValues t g mode).map Sample.toJson)))
    | .aggregateByKind w step kind => c.reading (do
        let g ← BucketGrid.ofSpan (← step)
        pure (.arr ((← w.aggregatedByKind t g kind).map Sample.toJson)))
    | .stats doc name => c.reading (.ok (match t.findStats doc name with
        | some r => .obj [("count", .int r.count),
            ("start", .int (Instant.ofMillis r.startMs).millis),
            ("end", .int (Instant.ofMillis r.endMs).millis)]
        | none => .obj [("count", .int 0), ("start", .int Instant.maxMillis),
            ("end", .int Instant.minMillis)]))
    | .names doc => c.reading (.ok (.arr ((t.seriesNames doc).map .str)))
    | .feed fromEtag take =>
      c.reading (.ok (.arr ((t.segmentsFrom fromEtag take).map SegmentItem.toJson)))
    | .feedCollection collection fromEtag take =>
      c.reading (.ok (.arr ((t.collectionSegmentsFrom collection fromEtag take).map
        SegmentItem.toJson)))
    | .feedDeleted fromEtag take =>
      c.reading (.ok (.arr ((t.tombstonesFrom fromEtag take).map TombstoneItem.toJson)))
    | .lastEtags collection =>
      c.reading (.ok (.obj [("all", .int t.lastSegmentEtag),
        ("collection", .int (t.lastCollectionEtag collection)),
        ("segments", .int t.segments.size)]))
    | .purge collection upto max =>
      c.write i db (Txn.purge collection (upto.getD db.versions.lastEtag) max) fun n => .int n
    | .ship dst fromEtag take whole =>
      c.shipTo dst (t.segmentsFrom fromEtag take) fun item =>
        if whole then do pure (.bool (← Txn.storeWholeSegment item))
        else do pure (Json.ofOption (← Txn.appendSegment item))
    | .shipDeleted dst fromEtag take =>
      c.shipTo dst (t.tombstonesFrom fromEtag take) fun item => do
        pure (Json.ofOption (← Txn.applyTombstone item))
    | .applySegment item whole =>
      if whole then c.write i db (Txn.storeWholeSegment item) .bool
      else c.write i db (Txn.appendSegment item) Json.ofOption
    | .setTime ms => (c.modify i fun d => { d with now := Instant.ofMillis ms }, .ok .null [])
    | .configure cfg =>
      match cfg.map Configuration.readJson with
      | some (.error e) => (c, .failed e)
      | read =>
        let db' := db.loadConfiguration (read.bind fun r => r.toOption)
        (c.modify i fun _ => db', .ok (.obj [("runner", .bool db'.configuration.isSome),
          ("configuration", (db'.configuration.map fun cfg => Json.obj cfg.jsonFields).getD .null)]) [])
    | .setTopology members =>
      let db' := { db with topology := { members } }
      (c.modify i fun _ => db', .ok (.bool db'.isPrimary) [])
    | .mark series ms dead =>
      c.write i db (Txn.markForPolicy series ms (if dead then .dead else .live)) fun _ => .null
    | .prepare now take =>
      c.reading (.ok (.arr ((t.dueRollups (now.getD db.now.millis) take fun _ => true).map
        Tables.DueRollup.toJson)))
    | .hasPending doc name ms => c.reading (.ok (.bool (t.hasPendingRollup (Key.seriesKey doc name) ms)))
    | .addNewPolicy collection source target after take =>
      c.write i db (do
        let source ← Txn.lift (Configuration.readPolicyJson source)
        let target ← Txn.lift (Configuration.readPolicyJson target)
        Txn.scheduleNewPolicy collection source target after take) fun (n, last) =>
          .obj [("marked", .int n), ("last", Json.ofOption (last.map Json.hexText))]
    | .rollup now take primary =>
      match db.configuration with
      | none => (c, .refused "no configuration")
      | some cfg =>
        let now := now.getD db.now.millis
        let batch := t.dueRollups now take fun _ => true
        c.write i db (Txn.rollupBatch cfg (Instant.ofMillis now) (primary.getD db.isPrimary) batch)
          fun n => .int n
    | .toRetain collection policy cutoff take =>
      c.reading (.ok (.arr ((t.seriesToRetain collection policy cutoff take).map StatsRow.toJson)))
    | .retain collection policy cutoff take =>
      let series := t.seriesToRetain collection policy cutoff take
      c.write i db (Txn.retain series cutoff) fun n =>
        .obj [("series", .arr (series.map StatsRow.toJson)), ("retained", .int n)]
    | .runRollups => c.pass i db Pass.runRollups
    | .doRetention => c.pass i db Pass.doRetention
    | .handleChanges => c.pass i db Pass.handleChanges
    | .changeVector => c.reading (.ok (.str db.changeVectorText))
    | .dump decoded => c.reading (db.dump decoded)

/-- The answer of a command on node `i`: its value or failure, with the node's last etag. -/
def answer (c : Cluster) (i : Nat) (r : Reply) : Json :=
  let etag := match getElem? c i with
    | some d => Json.int d.versions.lastEtag
    | none => .null
  match r with
  | .ok v extra => .obj ([("ok", v), ("etag", etag)] ++ extra)
  | .failed (.fault f) => Error.toJson (.fault f)
  | .failed e => .obj (e.fields ++ [("etag", etag)])
  | .refused m => .obj [("error", .str "bad_input"), ("message", .str m), ("etag", etag)]

end Cluster

end SeriesStore
