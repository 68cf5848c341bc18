import SeriesStore.Key
import SeriesStore.Number.Word

/-!
# Sorted tables

A `Table` holds rows under distinct byte keys, in key order; a row may carry an integer index.
Beside the rows it keeps two things of its own, moved by every change: the secondary index, a
set of `(index, key)` pairs in the order of index, then key, and the count of the bytes of its
keys and values. An insert puts the new row's pair in and takes the replaced row's pair out
unless the new row carries the same index, and adds the new row's bytes before it drops the
replaced row's; a removal takes the row's pair and bytes out. The indexed rows are listed by
walking the index and looking each key up.

Seeks stay inside a prefix: `seekForward p k` lists the rows from `k` on while their keys start
with `p`, `seekAfter` the same past `k`, `seekBefore p k` the rows below `k`, greatest first,
while their keys start with `p`, and `seekBackward p k` the greatest row at or below `k`
when its key starts with `p`.
-/

namespace SeriesStore

namespace Key

/-- Lexicographic order of byte strings; a proper prefix comes first. -/
def compare : Key → Key → Ordering
  | [], [] => .eq
  | [], _ :: _ => .lt
  | _ :: _, [] => .gt
  | a :: as, b :: bs =>
    match Ord.compare a b with
    | .eq => compare as bs
    | o => o

/-- Whether `a` comes strictly before `b`. -/
def lt (a b : Key) : Bool := compare a b == .lt

/-- Whether `a` comes at or before `b`. -/
def le (a b : Key) : Bool := compare a b != .gt

end Key

/-- A stored row: its value and optional index. -/
structure Row (α : Type) where
  value : α
  index : Option Int := none
  deriving Repr, Inhabited

/-- The bytes a stored value takes. -/
class ByteSize (α : Type) where
  size : α → Nat

/-- A byte string takes its length. -/
instance : ByteSize (List UInt8) := ⟨List.length⟩

/-- Rows under distinct keys, in key order, with the secondary index and the byte count kept
beside them. -/
structure Table (α : Type) where
  rows : List (Key × Row α) := []
  /-- The `(index, key)` pairs of the index, in the order of index, then key. -/
  index : List (Int × Key) := []
  /-- The bytes of keys and values counted in. -/
  bytes : Nat := 0
  deriving Inhabited

namespace Table

variable {α : Type}

/-- The empty table. -/
def empty : Table α := {}

/-- Rows in the table. -/
def size (t : Table α) : Nat := t.rows.length

/-- Whether the table has no row. -/
def isEmpty (t : Table α) : Bool := t.rows.isEmpty

/-- The row under a key. -/
def get? (t : Table α) (k : Key) : Option (Row α) := (t.rows.find? (·.1 == k)).map (·.2)

/-- Whether a key has a row. -/
def contains (t : Table α) (k : Key) : Bool := t.rows.any (·.1 == k)

/-- Put a row into a key-ordered list, replacing the row under an equal key. -/
def putRow (k : Key) (r : Row α) : List (Key × Row α) → List (Key × Row α)
  | [] => [(k, r)]
  | (k', r') :: rest =>
    match Key.compare k k' with
    | .lt => (k, r) :: (k', r') :: rest
    | .eq => (k, r) :: rest
    | .gt => (k', r') :: putRow k r rest

/-- Whether an index entry comes before another: by index, then key. -/
def indexBefore (a b : Int × Key) : Bool := a.1 < b.1 || (a.1 == b.1 && Key.lt a.2 b.2)

/-- Put an entry into the index, in its place, unless it is there. -/
def indexInsert (e : Int × Key) : List (Int × Key) → List (Int × Key)
  | [] => [e]
  | x :: rest =>
    if indexBefore e x then e :: x :: rest
    else if x = e then x :: rest
    else x :: indexInsert e rest

/-- Take an entry out of the index. -/
def indexErase (e : Int × Key) (idx : List (Int × Key)) : List (Int × Key) :=
  idx.filter (· != e)

/-- The index after a row with `index` is put under `k` in place of `previous`: the new pair
goes in, and the replaced row's pair goes out unless the new row carries the same index. -/
def reindex (idx : List (Int × Key)) (k : Key) (index : Option Int) (previous : Option (Row α)) :
    List (Int × Key) :=
  let idx := match index with
    | some i => indexInsert (i, k) idx
    | none => idx
  match previous.bind (·.index) with
  | some old => if index = some old then idx else indexErase (old, k) idx
  | none => idx

/-- The index after the row `previous` under `k` is removed. -/
def unindex (idx : List (Int × Key)) (k : Key) (previous : Option (Row α)) : List (Int × Key) :=
  match previous.bind (·.index) with
  | some i => indexErase (i, k) idx
  | none => idx

/-- The bytes of a row under its key. -/
def rowBytes [ByteSize α] (k : Key) (r : Row α) : Nat := k.length + ByteSize.size r.value

/-- The bytes of the row under a key, none when there is no row. -/
def bytesOf [ByteSize α] (k : Key) (previous : Option (Row α)) : Nat :=
  (previous.map (rowBytes k)).getD 0

/-- Insert or replace a row; the previous row under the key comes back. The new row's bytes are
counted in before the replaced row's are counted out. -/
def insert [ByteSize α] (t : Table α) (k : Key) (v : α) (index : Option Int) :
    Table α × Option (Row α) :=
  let previous := t.get? k
  (⟨putRow k ⟨v, index⟩ t.rows, reindex t.index k index previous,
    t.bytes + rowBytes k ⟨v, index⟩ - bytesOf k previous⟩, previous)

/-- Remove a row; it comes back. -/
def remove [ByteSize α] (t : Table α) (k : Key) : Table α × Option (Row α) :=
  let previous := t.get? k
  (⟨t.rows.filter (·.1 != k), unindex t.index k previous, t.bytes - bytesOf k previous⟩, previous)

/-- All rows in key order. -/
def toList (t : Table α) : List (Key × Row α) := t.rows

/-- Rows from `k` on whose keys start with `p`, in key order, up to the first that does not. -/
def seekForward (t : Table α) (p k : Key) : List (Key × Row α) :=
  (t.rows.filter fun (k', _) => Key.le k k').takeWhile fun (k', _) => Key.startsWith k' p

/-- Rows past `k` whose keys start with `p`, in key order, up to the first that does not. -/
def seekAfter (t : Table α) (p k : Key) : List (Key × Row α) :=
  (t.rows.filter fun (k', _) => Key.lt k k').takeWhile fun (k', _) => Key.startsWith k' p

/-- Rows whose keys start with `p`. -/
def withPrefix (t : Table α) (p : Key) : List (Key × Row α) := t.seekForward p p

/-- Rows below `k` whose keys start with `p`, greatest first, up to the first that does
not. -/
def seekBefore (t : Table α) (p k : Key) : List (Key × Row α) :=
  (t.rows.filter fun (k', _) => Key.lt k' k).reverse.takeWhile fun (k', _) => Key.startsWith k' p

/-- The greatest row at or below `k`, if its key starts with `p`. -/
def seekBackward (t : Table α) (p k : Key) : Option (Key × Row α) :=
  match (t.rows.filter fun (k', _) => Key.le k' k).getLast? with
  | some (k', r) => if Key.startsWith k' p then some (k', r) else none
  | none => none

/-- Remove, one after the other, the rows whose keys start with `p`; the count comes back. -/
def removePrefix [ByteSize α] (t : Table α) (p : Key) : Table α × Nat :=
  let keys := (t.withPrefix p).map (·.1)
  (keys.foldl (fun t k => (t.remove k).1) t, keys.length)

/-- The rows of index entries, looked up by key; an entry whose key has no row is passed over. -/
def lookupEntries (t : Table α) (es : List (Int × Key)) : List (Int × Key × Row α) :=
  es.filterMap fun e => (t.get? e.2).map fun r => (e.1, e.2, r)

/-- Indexed rows whose index is at least `i`, in index order. -/
def indexFrom (t : Table α) (i : Int) : List (Int × Key × Row α) :=
  t.lookupEntries (t.index.filter (·.1 ≥ i))

/-- Indexed rows whose index is greater than `i`, in index order; none past the last index. -/
def indexAfter (t : Table α) (i : Int) : List (Int × Key × Row α) :=
  if i < I64.max then t.indexFrom (i + 1) else []

/-- All indexed rows, greatest first. -/
def indexRev (t : Table α) : List (Int × Key × Row α) := t.lookupEntries t.index.reverse

/-- Total bytes of keys and values, as counted. -/
def sizeInBytes (t : Table α) : Nat := t.bytes

end Table

end SeriesStore
