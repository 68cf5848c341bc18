import SeriesStore.Codec.BitRun
import SeriesStore.Error
import SeriesStore.Number.Double

/-!
# Segments: a bounded run of samples sharing one baseline

A segment holds samples whose timestamps are millisecond offsets from a baseline, each with
`width` values, a status (live or dead) and an optional tag. Timestamps are written as
deltas of deltas, values as the XOR with the previous value of their column, keeping a window
of meaningful bits that later values may reuse. Every column keeps a summary (first, last,
least, greatest, sum and count) of the live values that are numbers.

The encoded segment never grows past `maxSize` bytes: `append` refuses a sample, leaving the
segment as it was, when it would not fit, when the sample is too wide, its offset out of
range or before the last one, or its tag too long.
-/

namespace SeriesStore

/-! ## Limits and layout sizes -/

/-- Bytes an encoded segment may take. -/
def Segment.maxSize : Nat := 2048

/-- Values a sample may carry. -/
def Segment.maxWidth : Nat := 32

/-- Bytes a tag may carry. -/
def Segment.maxTagLength : Nat := 255

/-- Header: width (2), entries (4), live entries (4), payload bits (4), last offset (4),
last delta (4). -/
def Segment.headerSize : Nat := 22

/-- Per column: five doubles and a count of summary, eight bytes of previous value and two of
window. -/
def Segment.columnSize : Nat := 44 + 10

/-- Largest value of the 32-bit counters of a segment. -/
def Segment.counterLimit : Nat := 2 ^ 32 - 1

/-- Offsets stay below this bound. -/
def Segment.offsetLimit : Int := 2147483647

/-! ## Samples -/

/-- Whether a stored sample is visible to readers. -/
inductive Status where
  | live
  | dead
  deriving Repr, DecidableEq, Inhabited

/-- One decoded sample of a segment. -/
structure Entry where
  offset : Int
  values : List Double
  tag : Option (List UInt8)
  status : Status
  deriving Repr, Inhabited, DecidableEq

/-- Whether the sample is live. -/
def Entry.isLive (e : Entry) : Bool := e.status == .live

/-! ## Column summaries -/

/-- Running statistics of one column over live values that are numbers. -/
structure ColumnSummary where
  first : Double := Double.nan
  last : Double := Double.nan
  min : Double := Double.nan
  max : Double := Double.nan
  sum : Double := Double.zero
  count : Nat := 0
  deriving Inhabited

namespace ColumnSummary

/-- Take one value into the summary; NaN is skipped. -/
def observe (c : ColumnSummary) (v : Double) : ColumnSummary :=
  if v.isNaN then c
  else if c.count = 0 then
    { c with first := v, min := v, max := v, last := v, sum := c.sum + v, count := c.count + 1 }
  else
    { c with min := Double.least c.min v, max := Double.greatest c.max v, last := v,
             sum := c.sum + v, count := c.count + 1 }

end ColumnSummary

/-! ## Windows of meaningful bits -/

/-- Leading zero bits of a 64-bit word (64 for zero). -/
def leadingZeros (x : UInt64) : Nat := if x = 0 then 64 else 63 - x.toNat.log2

/-- Trailing zero bits of a number below `2 ^ k`, at most `k`. -/
def trailingZerosUpTo (n : Nat) : Nat → Nat
  | 0 => 0
  | k + 1 => if n % 2 = 1 then 0 else 1 + trailingZerosUpTo (n / 2) k

/-- Trailing zero bits of a 64-bit word (64 for zero). -/
def trailingZeros (x : UInt64) : Nat := trailingZerosUpTo x.toNat 64

/-- The leading-zero count that marks a column with no window yet. -/
def Window.none : Nat := 255

/-- The XOR state of one column: its previous value and the window of meaningful bits. -/
structure Window where
  prev : UInt64 := 0
  leading : Nat := Window.none
  trailing : Nat := 0
  deriving Repr, Inhabited, DecidableEq

namespace Window

/-- Whether a XOR with these zero counts fits inside the window. -/
def reuses (w : Window) (leading trailing : Nat) : Bool :=
  w.leading != Window.none && leading ≥ w.leading && trailing ≥ w.trailing

/-- Bits the value takes when written after this state. -/
def encodedBits (w : Window) (bits : UInt64) : Nat :=
  let x := w.prev ^^^ bits
  if x = 0 then 1
  else
    let l := leadingZeros x
    let t := trailingZeros x
    if w.reuses l t then 2 + (64 - w.leading - w.trailing) else 2 + 6 + 6 + (64 - l - t)

/-- Write one value after this state: the run and the state that follow. -/
def write (w : Window) (r : BitRun) (bits : UInt64) : BitRun × Window :=
  let x := w.prev ^^^ bits
  let w' := { w with prev := bits }
  if x = 0 then (r.pushBit false, w')
  else
    let r := r.pushBit true
    let l := leadingZeros x
    let t := trailingZeros x
    if w.reuses l t then
      ((r.pushBit false).pushBits (x >>> w.trailing.toUInt64).toNat (64 - w.leading - w.trailing), w')
    else
      let m := 64 - l - t
      ((((r.pushBit true).pushBits l 6).pushBits (m - 1) 6).pushBits (x >>> t.toUInt64).toNat m,
        { w' with leading := l, trailing := t })

end Window

/-! ## Timestamps -/

/-- Bits a delta of deltas takes: one for zero, then four ranges of growing width. -/
def timestampBits (dod : Int) : Nat :=
  if dod = 0 then 1
  else if -63 ≤ dod ∧ dod ≤ 64 then 2 + 7
  else if -255 ≤ dod ∧ dod ≤ 256 then 3 + 9
  else if -2047 ≤ dod ∧ dod ≤ 2048 then 4 + 12
  else 4 + 32

/-- Write a delta of deltas: a prefix code for its range, then the value shifted to be
non-negative (the widest range keeps the low 32 bits). -/
def writeTimestamp (r : BitRun) (dod : Int) : BitRun :=
  if dod = 0 then r.pushBit false
  else if -63 ≤ dod ∧ dod ≤ 64 then (r.pushBits 0b10 2).pushBits (dod + 63).toNat 7
  else if -255 ≤ dod ∧ dod ≤ 256 then (r.pushBits 0b110 3).pushBits (dod + 255).toNat 9
  else if -2047 ≤ dod ∧ dod ≤ 2048 then (r.pushBits 0b1110 4).pushBits (dod + 2047).toNat 12
  else (r.pushBits 0b1111 4).pushBits (dod % 4294967296).toNat 32

/-! ## Segments -/

/-- A bounded run of samples sharing one baseline. -/
structure Segment where
  width : Nat
  entries : Nat
  live : Nat
  lastOffset : Int
  lastDelta : Int
  columns : List ColumnSummary
  windows : List Window
  payload : BitRun
  deriving Inhabited

namespace Segment

/-- Bytes the encoded segment takes. -/
def sizeInBytes (s : Segment) : Nat :=
  headerSize + s.width * columnSize + s.payload.byteLength

/-- An empty segment for samples of `width` values. -/
def ofWidth (width : Nat) : Outcome Segment :=
  if width = 0 ∨ width > maxWidth then
    .error (.invalidArgument
      s!"a segment holds between 1 and {maxWidth} values, got {width}")
  else
    .ok { width, entries := 0, live := 0, lastOffset := 0, lastDelta := 0,
          columns := List.replicate width {}, windows := List.replicate width {},
          payload := BitRun.empty }

/-- Whether the segment holds no sample. -/
def isEmpty (s : Segment) : Bool := s.entries == 0

/-- Timestamp of the last sample, for a segment at `baseline`. -/
def lastTimestamp (s : Segment) (baseline : Int) : Int := baseline + s.lastOffset

/-- The sample's values as bit patterns, padded with NaN to the segment's width. -/
def pad (width : Nat) (values : List Double) : List UInt64 :=
  (List.range width).map fun i => (values[i]?.getD Double.nan).bits

/-- Bits a tag takes: a flag, then a length byte and the bytes. -/
def tagBits : Option (List UInt8) → Nat
  | none => 1
  | some t => 1 + 8 + 8 * t.length

/-- Write a tag. -/
def writeTag (r : BitRun) : Option (List UInt8) → BitRun
  | none => r.pushBit false
  | some t => t.foldl (fun r b => r.pushBits b.toNat 8) ((r.pushBit true).pushBits t.length 8)

/-- Write the values of one sample, column by column. -/
def writeValues : List Window → BitRun → List UInt64 → BitRun × List Window
  | w :: ws, r, b :: bs =>
    let (r, w') := w.write r b
    let (r, ws') := writeValues ws r bs
    (r, w' :: ws')
  | ws, r, _ => (r, ws)

/-- Whether a sample passes the checks that need no encoding: width, offset range and order,
tag length. -/
def admits (s : Segment) (offset : Int) (values : List Double) (tag : Option (List UInt8)) :
    Bool :=
  values.length ≤ s.width && 0 ≤ offset && offset < offsetLimit &&
    (tag.all fun t => t.length ≤ maxTagLength) && (s.entries == 0 || s.lastOffset ≤ offset)

/-- Bits the sample takes after the current state. -/
def neededBits (s : Segment) (offset : Int) (bits : List UInt64) (tag : Option (List UInt8)) :
    Nat :=
  let delta := offset - s.lastOffset
  timestampBits (delta - s.lastDelta) + 1 + tagBits tag +
    ((s.windows.zip bits).map fun (w, b) => w.encodedBits b).sum

/-- Whether a stored sample overflows one of the 32-bit counters. -/
def countersOverflow (s : Segment) (bits : List UInt64) (status : Status) : Bool :=
  s.entries ≥ counterLimit ||
    (status == .live &&
      (s.live ≥ counterLimit ||
        (s.columns.zip bits).any fun (c, b) => !(Double.mk b).isNaN && c.count ≥ counterLimit))

/-- Append a sample at `offset` from the baseline. `none` means the segment refuses it and
stays as it was; a fault means a counter of a stored segment overflows. -/
def append (s : Segment) (offset : Int) (values : List Double) (tag : Option (List UInt8))
    (status : Status) : Except Fault (Option Segment) :=
  if !s.admits offset values tag then .ok none
  else
    let bits := pad s.width values
    let need := s.neededBits offset bits tag
    if headerSize + s.width * columnSize + (s.payload.length + need + 7) / 8 > maxSize then
      .ok none
    else if s.countersOverflow bits status then .error .overflow
    else
      let delta := offset - s.lastOffset
      let r := writeTimestamp s.payload (delta - s.lastDelta)
      let r := r.pushBit (status == .dead)
      let r := writeTag r tag
      let (r, windows) := writeValues s.windows r bits
      let isLive := status == .live
      .ok (some { s with
        lastOffset := offset, lastDelta := delta, entries := s.entries + 1,
        live := if isLive then s.live + 1 else s.live,
        columns := if isLive then (s.columns.zip bits).map fun (c, b) => c.observe ⟨b⟩
          else s.columns,
        windows, payload := r })

/-- Whether the sample fits on its own into a fresh segment of its width. A sample that does
not can never be stored. -/
def fitsAlone (values : List Double) (tag : Option (List UInt8)) : Bool :=
  match ofWidth values.length with
  | .ok s => match s.append 0 values tag .live with
    | .ok (some _) => true
    | _ => false
  | .error _ => false

end Segment

end SeriesStore
