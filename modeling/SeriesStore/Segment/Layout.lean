import SeriesStore.Segment.Basic

/-!
# The stored form of a segment

Little endian throughout: the header (width as 16 bits; entries, live entries and payload
bits as 32; last offset and last delta as signed 32), then per column the summary (five
doubles and a 32-bit count), then per column the window (previous value as 64 bits, leading
and trailing zero counts as one byte each), then the payload bytes.

`Segment.ofBytes` checks, in this order: the size limit, the width, that no counter
is cut short, that live entries do not outnumber entries, and that the payload has exactly
the bytes its bit count needs.
-/

namespace SeriesStore

/-! ## Writing -/

/-- The low `k` bytes of `n`, least significant first. -/
def littleEndian (n : Nat) (k : Nat) : List UInt8 :=
  (List.range k).map fun i => (n / 256 ^ i % 256).toUInt8

/-- A signed number as the two's complement pattern of `k` bytes. -/
def littleEndianSigned (x : Int) (k : Nat) : List UInt8 :=
  littleEndian (x % (2 ^ (8 * k) : Nat)).toNat k

namespace Segment

/-- The stored bytes of one column summary. -/
def columnBytes (c : ColumnSummary) : List UInt8 :=
  [c.first, c.last, c.min, c.max, c.sum].flatMap (fun x => littleEndian x.bits.toNat 8) ++
    littleEndian c.count 4

/-- The stored bytes of one window. -/
def windowBytes (w : Window) : List UInt8 :=
  littleEndian w.prev.toNat 8 ++ [w.leading.toUInt8, w.trailing.toUInt8]

/-- Encode into the stored layout. -/
def toBytes (s : Segment) : Array UInt8 :=
  let header := littleEndian s.width 2 ++ littleEndian s.entries 4 ++ littleEndian s.live 4 ++
    littleEndian s.payload.length 4 ++ littleEndianSigned s.lastOffset 4 ++
    littleEndianSigned s.lastDelta 4
  (header ++ s.columns.flatMap columnBytes ++ s.windows.flatMap windowBytes).toArray ++
    s.payload.bytes

end Segment

/-! ## Reading -/

/-- Reading the fixed part of a stored segment: the position is the state. -/
abbrev LayoutReader := StateT Nat (Except Error)

namespace LayoutReader

/-- The next `k` bytes as a little endian number. -/
def number (bytes : Array UInt8) (k : Nat) : LayoutReader Nat := fun p =>
  if p + k ≤ bytes.size then
    .ok ((List.range k).foldr (fun i acc => acc * 256 + (bytes[p + i]?.getD 0).toNat) 0, p + k)
  else .error (.corruption "segment header truncated")

/-- The next `k` bytes as a two's complement number. -/
def signed (bytes : Array UInt8) (k : Nat) : LayoutReader Int := do
  let v ← number bytes k
  pure (if v ≥ 2 ^ (8 * k - 1) then (v : Int) - 2 ^ (8 * k) else v)

/-- The next eight bytes as a double. -/
def double (bytes : Array UInt8) : LayoutReader Double := do
  let v ← number bytes 8
  pure ⟨v.toUInt64⟩

/-- One column summary. -/
def column (bytes : Array UInt8) : LayoutReader ColumnSummary := do
  let first ← double bytes
  let last ← double bytes
  let min ← double bytes
  let max ← double bytes
  let sum ← double bytes
  let count ← number bytes 4
  pure { first, last, min, max, sum, count }

/-- One window. -/
def window (bytes : Array UInt8) : LayoutReader Window := do
  let prev ← number bytes 8
  let leading ← number bytes 1
  let trailing ← number bytes 1
  pure { prev := prev.toUInt64, leading, trailing }

end LayoutReader

namespace Segment

/-- The fixed part of a stored segment and the position where its payload starts. -/
def readFixed (bytes : Array UInt8) : LayoutReader Segment := do
  let width ← LayoutReader.number bytes 2
  if width = 0 ∨ width > maxWidth then
    throw (.corruption s!"segment declares {width} values")
  let entries ← LayoutReader.number bytes 4
  let live ← LayoutReader.number bytes 4
  let bitLength ← LayoutReader.number bytes 4
  let lastOffset ← LayoutReader.signed bytes 4
  let lastDelta ← LayoutReader.signed bytes 4
  if live > entries then
    throw (.corruption "segment has more live entries than entries")
  let columns ← (List.range width).mapM fun _ => LayoutReader.column bytes
  let windows ← (List.range width).mapM fun _ => LayoutReader.window bytes
  pure { width, entries, live, lastOffset, lastDelta, columns, windows,
         payload := { bytes := #[], length := bitLength } }

/-- Decode the stored layout. -/
def ofBytes (bytes : Array UInt8) : Outcome Segment := do
  if bytes.size > maxSize then throw (.segmentTooLarge bytes.size)
  let (s, p) ← (readFixed bytes).run 0
  let rest := bytes.extract p bytes.size
  let bitLength := s.payload.length
  if rest.size ≠ (bitLength + 7) / 8 then
    throw (.corruption s!"segment payload is {rest.size} bytes but declares {bitLength} bits")
  pure { s with payload := { bytes := rest, length := bitLength } }

end Segment

end SeriesStore
