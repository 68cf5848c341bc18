import SeriesStore.Segment.Basic

/-!
# Decoding the samples of a segment

`Segment.decode` reads the payload from its start with fresh column windows and yields the
samples in stored order, as many as the header declares. When the payload ends first, or a
column whose first changed value claims to reuse a window it never opened (a `Fault`), the
samples read so far come back with the reason reading stopped. `Segment.stream` lists them as a
reader meets them, the failure last.
-/

namespace SeriesStore

/-- Why reading stopped before the declared count: the bits ran out, or a fault. -/
inductive DecodeStop where
  | short
  | fault (f : Fault)

/-- Reading a payload: the position in the run is the state. -/
abbrev Decoder := StateT Nat (Except DecodeStop)

namespace Decoder

/-- The next `n` bits as a number. -/
def take (r : BitRun) (n : Nat) : Decoder Nat := fun p =>
  match r.readBits p n with
  | some v => .ok (v, p + n)
  | none => .error .short

/-- The next bit. -/
def bit (r : BitRun) : Decoder Bool := do
  let v ← take r 1
  pure (v == 1)

/-- A 32-bit pattern read as a two's complement number. -/
def signed32 (v : Nat) : Int := if v ≥ 2 ^ 31 then (v : Int) - 2 ^ 32 else v

/-- A delta of deltas, in the prefix code of `writeTimestamp`. -/
def timestamp (r : BitRun) : Decoder Int := do
  if !(← bit r) then return 0
  if !(← bit r) then
    let v ← take r 7
    return (v : Int) - 63
  if !(← bit r) then
    let v ← take r 9
    return (v : Int) - 255
  if !(← bit r) then
    let v ← take r 12
    return (v : Int) - 2047
  let v ← take r 32
  return signed32 v

/-- A tag: a flag, then a length byte and the bytes. -/
def tag (r : BitRun) : Decoder (Option (List UInt8)) := do
  if !(← bit r) then return none
  let n ← take r 8
  let bytes ← (List.range n).mapM fun _ => do
    let b ← take r 8
    pure b.toUInt8
  return some bytes

/-- One value of a column, and the column's state after it. -/
def value (r : BitRun) (w : Window) : Decoder (UInt64 × Window) := do
  if !(← bit r) then return (w.prev, w)
  if !(← bit r) then
    if w.leading + w.trailing > 64 then throw (.fault .overflow)
    let v ← take r (64 - w.leading - w.trailing)
    if w.trailing ≥ 64 then throw (.fault .overflow)
    let bits := w.prev ^^^ (v.toUInt64 <<< w.trailing.toUInt64)
    return (bits, { w with prev := bits })
  let l ← take r 6
  let m := (← take r 6) + 1
  if l + m > 64 then throw .short
  let t := 64 - (l + m)
  let v ← take r m
  let bits := w.prev ^^^ (v.toUInt64 <<< t.toUInt64)
  return (bits, { prev := bits, leading := l, trailing := t })

/-- The values of one sample, column by column. -/
def values (r : BitRun) : List Window → Decoder (List Double × List Window)
  | [] => pure ([], [])
  | w :: ws => do
    let (b, w') ← value r w
    let (bs, ws') ← values r ws
    pure (⟨b⟩ :: bs, w' :: ws')

end Decoder

/-- What the decoder carries from one sample to the next. -/
structure DecodeState where
  windows : List Window
  lastOffset : Int := 0
  lastDelta : Int := 0

/-- One sample and the state after it. -/
def DecodeState.next (r : BitRun) (st : DecodeState) : Decoder (Entry × DecodeState) := do
  let dod ← Decoder.timestamp r
  let delta := st.lastDelta + dod
  let offset := st.lastOffset + delta
  let status := if (← Decoder.bit r) then Status.dead else Status.live
  let tag ← Decoder.tag r
  let (vals, windows) ← Decoder.values r st.windows
  pure ({ offset, values := vals, tag, status }, { windows, lastOffset := offset, lastDelta := delta })

/-- The samples of a segment in stored order, and what stopped the reading before the declared
count, if anything did. -/
structure Decoded where
  entries : List Entry
  stop : Option DecodeStop

/-- Whether every declared sample was read. -/
def Decoded.complete (d : Decoded) : Bool := d.stop.isNone

/-- Read up to `n` samples from position `p`. -/
def decodeRun (r : BitRun) : Nat → DecodeState → Nat → List Entry × Option DecodeStop
  | 0, _, _ => ([], none)
  | n + 1, st, p =>
    match (st.next r).run p with
    | .ok ((e, st'), p') =>
      let (es, stop) := decodeRun r n st' p'
      (e :: es, stop)
    | .error stop => ([], some stop)

namespace Segment

/-- Decode the samples, from the start of the payload with fresh windows. -/
def decode (s : Segment) : Decoded :=
  let (es, stop) := decodeRun s.payload s.entries { windows := List.replicate s.width {} } 0
  { entries := es, stop }

/-- The failure that stops a reading early: a payload that ends, or a fault. -/
def stopError : DecodeStop → Error
  | .short => .corruption "segment payload ended early"
  | .fault f => .fault f

/-- The samples as a reader meets them: each one decoded, then the failure that stopped the
reading, if any. A reader that stops early never meets a later failure. -/
def stream (s : Segment) : List (Outcome Entry) :=
  let d := s.decode
  d.entries.map .ok ++ (d.stop.map fun st => [.error (stopError st)]).getD []

/-- All samples, or the failure that stopped the reading. -/
def samples (s : Segment) : Outcome (List Entry) :=
  let d := s.decode
  match d.stop with
  | none => .ok d.entries
  | some st => .error (stopError st)

end Segment

end SeriesStore
