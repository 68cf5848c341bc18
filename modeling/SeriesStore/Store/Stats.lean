import SeriesStore.Store.Database

/-!
# Statistics of series

Every series with live samples has one statistics row in the table of its collection: how many
live samples it holds, its first and last live timestamp, and the policy (lower case) that wrote
it. A row whose count drops to zero is removed. The rows are indexed by their first timestamp,
so the series that start before a cutoff are found in that order.
-/

namespace SeriesStore

/-- The policy, in lower case, whose series has this name: the raw policy for a raw name. -/
def policyOfSeries (name : String) : String := Text.lower ((SeriesName.policy? name).getD Policy.rawName)

namespace Tables

/-- The statistics of a series in a collection. -/
def stats? (t : Tables) (collection doc name : String) : Option StatsRow :=
  ((t.statsOf collection).get? (Key.seriesKey doc name)).map (·.value)

/-- The statistics of a series in whichever collection has them, collections in order of
name. -/
def findStats (t : Tables) (doc name : String) : Option StatsRow :=
  t.stats.findSome? fun (_, table) => (table.get? (Key.seriesKey doc name)).map (·.value)

/-- Store a statistics row, or remove it when the count is zero. -/
def putStats (t : Tables) (r : StatsRow) : Tables :=
  { t with stats := updateCollection t.stats r.series.collection fun table =>
      if r.count = 0 then (table.remove r.series.key).1
      else (table.insert r.series.key r (some r.startMs)).1 }

/-- Remove the statistics of a series. -/
def removeStats (t : Tables) (s : SeriesRef) : Tables :=
  if (t.stats.lookup (Text.lower s.collection)).isSome then
    { t with stats := updateCollection t.stats s.collection fun table => (table.remove s.key).1 }
  else t

/-- The policies with series in a collection, each once, in order. -/
def policiesInCollection (t : Tables) (collection : String) : List String :=
  ((t.statsOf collection).toList.map (·.2.value.policy)).foldl
    (fun acc p => if acc.contains p then acc else acc ++ [p]) [] |>.mergeSort fun a b => decide (a ≤ b)

/-- Take rows of one policy, each with its key, until `take` are taken. -/
def takeOfPolicy (policy : String) (take : Nat) :
    List (Key × Row StatsRow) → List (Key × StatsRow)
  | [] => []
  | (k, r) :: rest =>
    if take = 0 then []
    else if r.value.policy == policy then (k, r.value) :: takeOfPolicy policy (take - 1) rest
    else takeOfPolicy policy take rest

/-- Up to `take` series of a policy in key order, from past the key `after` when given. -/
def seriesOfPolicy (t : Tables) (collection policy : String) (after : Option Key) (take : Nat) :
    List (Key × StatsRow) :=
  let table := t.statsOf collection
  let rows := match after with
    | some a => table.seekAfter [] a
    | none => table.toList
  takeOfPolicy (Text.lower policy) take rows

/-- The series of a policy whose first live sample is before `cutoff`, by that sample. -/
def seriesStartingBefore (t : Tables) (collection policy : String) (cutoff : Int) :
    List StatsRow :=
  let p := Text.lower policy
  (((t.statsOf collection).indexFrom I64.min).takeWhile (·.1 < cutoff)).filterMap fun (_, _, r) =>
    if r.value.policy == p then some r.value else none

end Tables

end SeriesStore
