import SeriesStore.Store.Rows

/-!
# Points: samples as segments store them

A `Point` is a sample with its timestamp cut to the millisecond and its tag as bytes. Before
points are written they are prepared (`prepare`): sorted by timestamp, keeping the given order
among equal ones, and of the points sharing a timestamp only the last is kept.

Stored and incoming points are merged by timestamp (`merge`). On a tie a local write always
wins; a replicated point loses to a stored one that has more values (trailing NaN not counted)
or, with as many, values greater in the first place they differ, NaN lowest.

`build` packs points into segments in order: each point goes into the current segment when it
fits, else it opens a new one at its own timestamp, sized to its values. The first segment may
be pinned to a baseline and width: the first point that opens a segment tries it first.
-/

namespace SeriesStore

/-- A sample as segments store it. -/
structure Point where
  ms : Int
  values : List Double
  tag : Option (List UInt8)
  status : Status
  deriving Inhabited

namespace Point

/-- The point of a sample; a local write is always live. -/
def ofSample (replicated : Bool) (s : Sample) : Point :=
  { ms := s.time.millis, values := s.values, tag := s.tag.map (·.toUTF8.toList),
    status := if replicated then s.status else .live }

/-- The point of a decoded entry of a segment at a baseline. -/
def ofEntry (baseline : Int) (e : Entry) : Point :=
  { ms := baseline + e.offset, values := e.values, tag := e.tag, status := e.status }

/-- Append the point to a segment at a baseline. -/
def appendTo (p : Point) (s : Segment) (baseline : Int) : Except Fault (Option Segment) :=
  s.append (p.ms - baseline) p.values p.tag p.status

/-- Replace the last point of a reversed list when it shares the timestamp. -/
def keepLastStep (acc : List Point) (p : Point) : List Point :=
  match acc with
  | q :: rest => if q.ms == p.ms then p :: rest else p :: q :: rest
  | [] => [p]

/-- Sort points by timestamp, stably, keeping the last of each timestamp. -/
def prepare (ps : List Point) : List Point :=
  ((ps.mergeSort fun a b => decide (a.ms ≤ b.ms)).foldl keepLastStep []).reverse

/-- The values without trailing NaN. -/
def trimPadding (values : List Double) : List Double :=
  (values.reverse.dropWhile Double.isNaN).reverse

/-- Compare two doubles with NaN lowest; NaN equals NaN. -/
def compareNanLowest (a b : Double) : Ordering :=
  match a.isNaN, b.isNaN with
  | true, true => .eq
  | true, false => .lt
  | false, true => .gt
  | false, false => if a.lt b then .lt else if b.lt a then .gt else .eq

/-- Whether `xs` beats `ys` place by place, NaN lowest; equal lists keep the first. -/
def winsByValues : List Double → List Double → Bool
  | x :: xs, y :: ys =>
    match compareNanLowest x y with
    | .gt => true
    | .lt => false
    | .eq => winsByValues xs ys
  | _, _ => true

/-- Whether the stored point wins a tie with an incoming one. -/
def keepLocal (stored incoming : Point) (replicated : Bool) : Bool :=
  if !replicated then false
  else
    let l := trimPadding stored.values
    let r := trimPadding incoming.values
    if l.length != r.length then l.length > r.length else winsByValues l r

/-- Merge stored and incoming points by timestamp, resolving ties. -/
def merge (replicated : Bool) : List Point → List Point → List Point
  | [], ys => ys
  | xs, [] => xs
  | x :: xs, y :: ys =>
    if x.ms < y.ms then x :: merge replicated xs (y :: ys)
    else if y.ms < x.ms then y :: merge replicated (x :: xs) ys
    else (if keepLocal x y replicated then x else y) :: merge replicated xs ys

end Point

/-- Segments being packed: those done, the current one with its baseline, and the pin of the
first. -/
structure Packing where
  done : List (Int × Segment) := []
  current : Option (Int × Segment) := none
  pinned : Option (Int × Nat) := none

namespace Packing

/-- The segment of a point appended to a fresh segment of a width at a baseline. -/
def fresh (p : Point) (baseline : Int) (width : Nat) : Outcome (Option Segment) := do
  let s ← Segment.ofWidth width
  match p.appendTo s baseline with
  | .ok r => pure r
  | .error f => throw (.fault f)

/-- Pack one more point. -/
def add (k : Packing) (p : Point) : Outcome Packing := do
  if let some (b, s) := k.current then
    match p.appendTo s b with
    | .error f => throw (.fault f)
    | .ok (some s') => return { k with current := some (b, s') }
    | .ok none => pure ()
  let done := k.done ++ k.current.toList
  if let some (b, w) := k.pinned then
    if let some s ← fresh p b (Nat.max w p.values.length) then
      return { done, current := some (b, s), pinned := none }
  match ← fresh p p.ms p.values.length with
  | some s => pure { done, current := some (p.ms, s), pinned := none }
  | none =>
    let empty ← Segment.ofWidth p.values.length
    throw (.segmentTooLarge empty.sizeInBytes)

end Packing

/-- Pack points into segments with their baselines, the first optionally pinned. -/
def Point.build (ps : List Point) (pinned : Option (Int × Nat)) : Outcome (List (Int × Segment)) := do
  let k ← ps.foldlM Packing.add { pinned }
  pure (k.done ++ k.current.toList)

end SeriesStore
