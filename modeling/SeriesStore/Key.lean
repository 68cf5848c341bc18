import SeriesStore.Error
import SeriesStore.Text.Lower
import SeriesStore.Text.Escape

/-!
# Keys of series and segments

Every row of a series is found by a byte key. A document id and a series name are lowercased
and joined by the record separator `0x1E`, so all segments of one series share one prefix; a
segment key ends with its baseline in eight big-endian bytes whose sign bit is flipped, so that
the byte order of keys is the numeric order of baselines. A deletion tombstone ends with its
etag in plain big-endian bytes instead.

A series name may carry a policy after `@`: `hr@byhour` is what policy `byhour` writes for the
raw series `hr`.

    decodeI64 (encodeI64 b) = b       (for every 64-bit `b`)
-/

namespace SeriesStore

/-- A key of the sorted tables: bytes compared in lexicographic order. -/
abbrev Key := List UInt8

namespace Key

/-- The byte that joins the parts of a key. -/
def separator : UInt8 := 0x1E

/-- The separator as a character. -/
def separatorChar : Char := Char.ofNat 0x1E

/-- The UTF-8 bytes of the lowercase of a text. -/
def lowerBytes (s : String) : Key := (Text.lower s).toUTF8.toList

/-- Big-endian bytes of the low `k` bytes of `n`. -/
def bigEndian (n : Nat) (k : Nat) : List UInt8 :=
  (List.range k).reverse.map fun i => (n / 256 ^ i % 256).toUInt8

/-- A number from big-endian bytes. -/
def ofBigEndian (bs : List UInt8) : Nat := bs.foldl (fun acc b => acc * 256 + b.toNat) 0

/-- A 64-bit number as bytes whose order is numeric order: big-endian with the sign bit
flipped. -/
def encodeI64 (v : Int) : List UInt8 := bigEndian ((v + 2 ^ 63) % 2 ^ 64).toNat 8

/-- The number of eight bytes written by `encodeI64`. -/
def decodeI64 (bs : List UInt8) : Int := (ofBigEndian bs : Int) - 2 ^ 63

/-- Refuse document ids whose keys could run into another document's: blank ones, and ones
holding the separator. -/
def validateDocumentId (id : String) : Outcome Unit :=
  if (Text.trim id).isEmpty then .error (.invalidArgument "document id cannot be empty")
  else if id.toList.contains separatorChar then
    .error (.invalidArgument ("document id '" ++ Text.escape id ++ "' contains a record separator"))
  else .ok ()

/-- The prefix of every key of a document. -/
def documentPrefix (doc : String) : Key := lowerBytes doc ++ [separator]

/-- The prefix of every segment key of a series. -/
def seriesPrefix (doc name : String) : Key := documentPrefix doc ++ lowerBytes name ++ [separator]

/-- The key of a series in the per-series tables. -/
def seriesKey (doc name : String) : Key := documentPrefix doc ++ lowerBytes name

/-- The key of a segment, from its series prefix and baseline. -/
def segmentOfPrefix (pre : Key) (baseline : Int) : Key := pre ++ encodeI64 baseline

/-- The key of the segment of a series starting at `baseline`. -/
def segment (doc name : String) (baseline : Int) : Key :=
  segmentOfPrefix (seriesPrefix doc name) baseline

/-- The etag as the eight bytes of its two's complement, big-endian. -/
def etagBytes (etag : Int) : List UInt8 := bigEndian (etag % 2 ^ 64).toNat 8

/-- The key of a deletion tombstone of a series. -/
def deletedRange (doc name : String) (etag : Int) : Key := seriesPrefix doc name ++ etagBytes etag

/-- Split a `document RS name` key at its first separator; both parts must be UTF-8. -/
def splitSeries (key : Key) : Option (String × String) :=
  match key.idxOf? separator with
  | some i => do
    let doc ← String.fromUTF8? (ByteArray.mk (key.take i).toArray)
    let name ← String.fromUTF8? (ByteArray.mk (key.drop (i + 1)).toArray)
    pure (doc, name)
  | none => none

/-- The parts of a segment key: lowercased document id, series name and baseline. -/
def parseSegment (key : Key) : Option (String × String × Int) :=
  if key.length < 10 then none
  else
    let head := key.take (key.length - 8)
    let baseline := decodeI64 (key.drop (key.length - 8))
    if head.getLast? = some separator then
      (splitSeries head.dropLast).map fun (d, n) => (d, n, baseline)
    else none

/-- The series prefix of a segment key. -/
def prefixOfSegment (key : Key) : Option Key :=
  if key.length ≥ 8 then some (key.take (key.length - 8)) else none

/-- The baseline of a segment key. -/
def baselineOf (key : Key) : Option Int :=
  if key.length ≥ 8 then some (decodeI64 (key.drop (key.length - 8))) else none

/-- Whether `pre` is a prefix of `key`. -/
def startsWith (key pre : Key) : Bool := pre.isPrefixOf key

end Key

namespace SeriesName

/-- The character between a raw series name and its policy. -/
def policySeparator : Char := '@'

/-- The name of the series that `policy` writes for `raw`. -/
def ofPolicy (raw policy : String) : String := raw ++ "@" ++ policy

/-- The raw series name: everything before the first `@`. -/
def raw (name : String) : String := String.ofList (name.toList.takeWhile (· != policySeparator))

/-- The policy of a series name: everything after the first `@`, if there is one. -/
def policy? (name : String) : Option String :=
  let cs := name.toList
  if cs.contains policySeparator then
    some (String.ofList ((cs.dropWhile (· != policySeparator)).drop 1))
  else none

end SeriesName

end SeriesStore
