import SeriesStore.Toml.Document

/-!
# Reading by grammar rules

A `Grammar α` reads an `α` from a byte offset of a source text. A rule that does not match
fails with a `Failure` that records where the reading stopped. A failure is either open, so
that an alternative may be tried from where the failed rule started, or *committed*, which ends
the reading at once: a rule commits once what it has read can only continue its own way.

Rules add words to their failures on the way out (`Context`): what was being read
(`invalid table header`) and what would have been accepted (``expected `.`, `]` ``). The
message of a failure (`Failure.message`) names the innermost thing read, every expected word in
the order the rules added them, and a cause of the failing rule's own.

Repetition is bounded by the bytes left, and stops at the first round that reads nothing, so
every rule here is total.
-/

namespace SeriesStore

namespace Toml

/-- What a failing rule says about itself. -/
inductive Context where
  /-- What was being read: `table header`. -/
  | label (what : String)
  /-- What would have been accepted, as the message writes it. -/
  | expected (what : String)
  deriving Inhabited

/-- A failure to read: where the reading stopped, whether it is final, what the rules said and
the cause the failing rule gave. -/
structure Failure where
  pos : Nat
  committed : Bool
  context : List Context
  cause : Option String
  deriving Inhabited

namespace Failure

/-- An open failure at an offset, with nothing said. -/
def here (pos : Nat) : Failure := ⟨pos, false, [], none⟩

/-- An open failure at an offset with a cause. -/
def because (pos : Nat) (cause : String) : Failure := ⟨pos, false, [], some cause⟩

/-- The message: `invalid` and the innermost thing read, then the expected words after
`expected`, then the cause, one to a line. -/
def message (f : Failure) : String :=
  let label := f.context.findSome? fun
    | .label s => some s
    | .expected _ => none
  let expected := f.context.filterMap fun
    | .expected s => some s
    | .label _ => none
  let parts := (label.map ("invalid " ++ ·)).toList ++
    (if expected.isEmpty then [] else ["expected " ++ ", ".intercalate expected]) ++ f.cause.toList
  "\n".intercalate parts

end Failure

/-- Reading from a byte offset of a source text. -/
abbrev Grammar := ReaderT ByteArray (StateT Nat (Except Failure))

namespace Grammar

variable {α β : Type}

/-- The offset reached. -/
def offset : Grammar Nat := get

/-- The text of a range of the source. -/
def slice (start stop : Nat) : Grammar String := do
  pure ((String.fromUTF8? ((← read).extract start stop)).getD "")

/-- Fail here, openly. -/
def failHere : Grammar α := do throw (Failure.here (← get))

/-- Fail here, openly, with a cause. -/
def failBecause (cause : String) : Grammar α := do throw (Failure.because (← get) cause)

/-- The byte at the offset, if any, without reading it. -/
def peekByte : Grammar (Option UInt8) := do pure (← read)[← get]?

/-- Whether the source ends here. -/
def atEnd : Grammar Bool := do pure ((← get) ≥ (← read).size)

/-- The end of the source. -/
def eof : Grammar Unit := do if ← atEnd then pure () else failHere

/-- One byte that satisfies `ok`. -/
def byteWhere (ok : UInt8 → Bool) : Grammar UInt8 := do
  match ← peekByte with
  | some b => if ok b then do modify (· + 1); pure b else failHere
  | none => failHere

/-- One given byte. -/
def byte (c : Char) : Grammar Unit := discard (byteWhere (· == c.toNat.toUInt8))

/-- One byte other than a given one. -/
def byteOtherThan (c : Char) : Grammar Unit := discard (byteWhere (· != c.toNat.toUInt8))

/-- A fixed text, all of it or nothing. -/
def literal (s : String) : Grammar Unit := do
  let src ← read
  let p ← get
  let bs := s.toUTF8
  if p + bs.size ≤ src.size && (src.extract p (p + bs.size)).toList == bs.toList then
    set (p + bs.size)
  else failHere

/-- The number of bytes from `i` on that satisfy `ok`, at most `most`. -/
def runLength (src : ByteArray) (ok : UInt8 → Bool) : Nat → Nat → Nat
  | 0, _ => 0
  | most + 1, i =>
    match src[i]? with
    | some b => if ok b then runLength src ok most (i + 1) + 1 else 0
    | none => 0

/-- Between `least` and `most` bytes that satisfy `ok`, as many as there are; the range read. -/
def takeBetween (least most : Nat) (ok : UInt8 → Bool) : Grammar Range := do
  let p ← get
  let n := runLength (← read) ok most p
  if n < least then failHere
  else do
    set (p + n)
    pure ⟨p, p + n⟩

/-- All the bytes from here that satisfy `ok`, maybe none. -/
def takeWhile (ok : UInt8 → Bool) : Grammar Range := do
  takeBetween 0 (← read).size ok

/-- All the bytes from here that satisfy `ok`, at least one. -/
def takeWhile1 (ok : UInt8 → Bool) : Grammar Range := do
  takeBetween 1 (← read).size ok

/-- The text of the range a rule read. -/
def text (p : Grammar Range) : Grammar String := do
  let r ← p
  slice r.start r.stop

/-- `p`, or nothing where `p` fails openly; the offset is then where it was. -/
def optional (p : Grammar α) : Grammar (Option α) :=
  tryCatch (some <$> p) fun e => if e.committed then throw e else pure none

/-- `p`, or `q` from the same offset where `p` fails openly. -/
def orElse (p q : Grammar α) : Grammar α :=
  tryCatch p fun e => if e.committed then throw e else q

/-- `p` with its failures committed. -/
def commit (p : Grammar α) : Grammar α :=
  tryCatch p fun e => throw { e with committed := true }

/-- `p`, a word added to its failures. -/
def within (c : Context) (p : Grammar α) : Grammar α :=
  tryCatch p fun e => throw { e with context := e.context ++ [c] }

/-- `p`, its failures saying what was being read. -/
def label (what : String) (p : Grammar α) : Grammar α := within (.label what) p

/-- `p`, its failures saying what would have been accepted. -/
def expecting (what : String) (p : Grammar α) : Grammar α := within (.expected what) p

/-- `p`, its value checked by `f`: a refusal is an open failure where `p` started, with the
cause `f` gives. -/
def refine (p : Grammar α) (f : α → Except String β) : Grammar β := do
  let start ← get
  let v ← p
  match f v with
  | .ok w => pure w
  | .error cause => throw (Failure.because start cause)

/-- `p` and the range it read. -/
def spanned (p : Grammar α) : Grammar (α × Range) := do
  let start ← get
  let v ← p
  pure (v, ⟨start, ← get⟩)

/-- `p` without moving on. -/
def lookAhead (p : Grammar α) : Grammar α := do
  let start ← get
  let v ← p
  set start
  pure v

/-- `p` again and again until it fails openly or reads nothing, at most `fuel` times more. -/
def manyFrom (p : Grammar α) : Nat → List α → Grammar (List α)
  | 0, acc => pure acc.reverse
  | fuel + 1, acc => do
    let before ← get
    match ← optional p with
    | none => pure acc.reverse
    | some v => if (← get) == before then pure (v :: acc).reverse else manyFrom p fuel (v :: acc)

/-- `p` as often as it matches, maybe never. -/
def many (p : Grammar α) : Grammar (List α) := do
  manyFrom p ((← read).size + 1 - (← get)) []

/-- `p` as often as it matches, at least once. -/
def many1 (p : Grammar α) : Grammar (List α) := do
  let first ← p
  let rest ← many p
  pure (first :: rest)

/-- Further items, each after a separator. A separator not followed by an item is left unread,
and so is one where the item fails openly. -/
def sepRest (p : Grammar α) (sep : Grammar Unit) : Nat → List α → Grammar (List α)
  | 0, acc => pure acc.reverse
  | fuel + 1, acc => do
    match ← optional (do sep; p) with
    | none => pure acc.reverse
    | some v => sepRest p sep fuel (v :: acc)

/-- Items separated by `sep`, at least one. -/
def sepBy1 (p : Grammar α) (sep : Grammar Unit) : Grammar (List α) := do
  let first ← p
  sepRest p sep ((← read).size + 1 - (← get)) [first]

/-- Items separated by `sep`, maybe none. -/
def sepBy (p : Grammar α) (sep : Grammar Unit) : Grammar (List α) := do
  match ← optional p with
  | none => pure []
  | some first => sepRest p sep ((← read).size + 1 - (← get)) [first]

/-- Run a rule on a whole text, from its first byte. -/
def run (p : Grammar α) (src : ByteArray) : Except Failure α :=
  StateT.run' (ReaderT.run p src) 0

end Grammar

end Toml

end SeriesStore
