import SeriesStore.Json.Value
import SeriesStore.Number.Decimal

/-!
# Reading JSON text

A reader walks the UTF-8 bytes of a text from left to right and never backs up. A failure
carries its wording and the byte index it is reported at; its text then names the line and
the column, the column counting the bytes of the line up to that index.

Where a failure is reported is part of its text, and follows one rule per kind: a failure at a
byte that was only looked at is reported just past that byte; a failure found after consuming
bytes is reported at the end of what was consumed.

Numbers: digits with neither a fraction nor an exponent are an integer while they fit 64 bits
(signed when negative), and `-0` is the double minus zero; everything else is a double: its
significand (digits beyond 64 bits dropped) rounded to a double, then scaled by a power of
ten (`Decimal.scaleStepwise`).
-/

namespace SeriesStore

namespace Json

/-! ## Failures -/

/-- The kinds of malformed text. -/
inductive Syntax where
  | eofWhileParsingList
  | eofWhileParsingObject
  | eofWhileParsingString
  | eofWhileParsingValue
  | expectedColon
  | expectedListCommaOrEnd
  | expectedObjectCommaOrEnd
  | expectedSomeIdent
  | expectedSomeValue
  | invalidEscape
  | invalidNumber
  | numberOutOfRange
  | invalidUnicodeCodePoint
  | controlCharacterWhileParsingString
  | keyMustBeAString
  | loneLeadingSurrogateInHexEscape
  | trailingComma
  | trailingCharacters
  | unexpectedEndOfHexEscape
  | recursionLimitExceeded
  deriving Repr, DecidableEq

/-- The wording of a kind of malformed text. -/
def Syntax.message : Syntax → String
  | .eofWhileParsingList => "EOF while parsing a list"
  | .eofWhileParsingObject => "EOF while parsing an object"
  | .eofWhileParsingString => "EOF while parsing a string"
  | .eofWhileParsingValue => "EOF while parsing a value"
  | .expectedColon => "expected `:`"
  | .expectedListCommaOrEnd => "expected `,` or `]`"
  | .expectedObjectCommaOrEnd => "expected `,` or `\x7d`"
  | .expectedSomeIdent => "expected ident"
  | .expectedSomeValue => "expected value"
  | .invalidEscape => "invalid escape"
  | .invalidNumber => "invalid number"
  | .numberOutOfRange => "number out of range"
  | .invalidUnicodeCodePoint => "invalid unicode code point"
  | .controlCharacterWhileParsingString =>
    "control character (\\u0000-\\u001F) found while parsing a string"
  | .keyMustBeAString => "key must be a string"
  | .loneLeadingSurrogateInHexEscape => "lone leading surrogate in hex escape"
  | .trailingComma => "trailing comma"
  | .trailingCharacters => "trailing characters"
  | .unexpectedEndOfHexEscape => "unexpected end of hex escape"
  | .recursionLimitExceeded => "recursion limit exceeded"

/-- A failure to read: its wording and, once known, the byte index it is reported at. -/
structure ReadError where
  text : String
  at? : Option Nat
  deriving Repr, Inhabited

/-- Line and column of a byte index: lines count from one, the column counts the bytes
before the index on its line. -/
def position (bytes : ByteArray) (i : Nat) : Nat × Nat :=
  let before := (bytes.extract 0 i).toList
  let lines := before.count 10
  let lastBreak := (before.zipIdx.filter (·.1 == 10)).getLast?.map (·.2 + 1)
  (lines + 1, i - lastBreak.getD 0)

/-- The text of a failure, with its line and column when it has an index. -/
def ReadError.message (bytes : ByteArray) (e : ReadError) : String :=
  match e.at? with
  | some i =>
    let (l, c) := position bytes i
    e.text ++ " at line " ++ toString l ++ " column " ++ toString c
  | none => e.text

/-! ## The reader -/

/-- Reading text: the bytes are fixed, the index moves. -/
abbrev TextReader := ReaderT ByteArray (StateT Nat (Except ReadError))

namespace TextReader

/-- The byte at the index, if any. -/
def peek : TextReader (Option UInt8) := fun b p => .ok (b[p]?, p)

/-- Step over one byte. -/
def eat : TextReader Unit := fun _ p => .ok ((), p + 1)

/-- The byte at the index, stepping over it. -/
def next : TextReader (Option UInt8) := fun b p => .ok (b[p]?, if p < b.size then p + 1 else p)

/-- The index. -/
def index : TextReader Nat := fun _ p => .ok (p, p)

/-- Fail at the index: after what was consumed. -/
def failHere {α : Type} (text : String) : TextReader α := fun _ p => .error ⟨text, some p⟩

/-- Fail just past the byte looked at. -/
def failPeek {α : Type} (text : String) : TextReader α := fun b p =>
  .error ⟨text, some (Nat.min b.size (p + 1))⟩

/-- Fail with a kind of malformed text, at the index. -/
def syntaxHere {α : Type} (k : Syntax) : TextReader α := failHere k.message

/-- Fail with a kind of malformed text, past the byte looked at. -/
def syntaxPeek {α : Type} (k : Syntax) : TextReader α := failPeek k.message

/-- The first index from `p` on that is not a blank. -/
def skipBlankFrom (b : ByteArray) (p : Nat) : Nat :=
  if h : p < b.size then
    let c := b[p]
    if c == 32 || c == 10 || c == 9 || c == 13 then skipBlankFrom b (p + 1) else p
  else p
termination_by b.size - p

/-- Skip blanks, then look at the next byte. -/
def peekPastBlank : TextReader (Option UInt8) := fun b p =>
  let q := skipBlankFrom b p
  .ok (b[q]?, q)

/-- The bytes from the index up to the first quote, backslash or control byte. -/
def plainRun (b : ByteArray) (p : Nat) : Nat :=
  if h : p < b.size then
    let c := b[p]
    if c == 34 || c == 92 || c < 32 then p else plainRun b (p + 1)
  else p
termination_by b.size - p

/-- Take the bytes from the index up to `q`. -/
def takeUpTo (q : Nat) : TextReader (List UInt8) := fun b p =>
  .ok ((b.extract p q).toList, q)

/-- The value of a hexadecimal digit. -/
def hexValue (c : UInt8) : Option Nat :=
  if 48 ≤ c && c ≤ 57 then some (c - 48).toNat
  else if 97 ≤ c && c ≤ 102 then some (c - 87).toNat
  else if 65 ≤ c && c ≤ 70 then some (c - 55).toNat
  else none

/-- Four hexadecimal digits of an escape. -/
def hexEscape : TextReader Nat := fun b p =>
  if p + 4 > b.size then .error ⟨Syntax.eofWhileParsingString.message, some b.size⟩
  else
    let digits := (List.range 4).map fun i => hexValue (b[p + i]?.getD 0)
    match digits.findIdx? Option.isNone with
    | some i => .error ⟨Syntax.invalidEscape.message, some (p + i + 1)⟩
    | none => .ok (digits.foldl (fun acc d => acc * 16 + d.getD 0) 0, p + 4)

/-- The UTF-8 bytes of a code point. -/
def utf8 (n : Nat) : List UInt8 :=
  if n < 0x80 then [n.toUInt8]
  else if n < 0x800 then [(0xC0 + n / 64).toUInt8, (0x80 + n % 64).toUInt8]
  else if n < 0x10000 then
    [(0xE0 + n / 4096).toUInt8, (0x80 + n / 64 % 64).toUInt8, (0x80 + n % 64).toUInt8]
  else
    [(0xF0 + n / 262144).toUInt8, (0x80 + n / 4096 % 64).toUInt8, (0x80 + n / 64 % 64).toUInt8,
     (0x80 + n % 64).toUInt8]

/-- The bytes of a `\u` escape, the backslash and `u` consumed; a surrogate pair makes one
code point. -/
def unicodeEscape : TextReader (List UInt8) := do
  let n ← hexEscape
  if 0xDC00 ≤ n ∧ n ≤ 0xDFFF then syntaxHere .loneLeadingSurrogateInHexEscape
  else if n < 0xD800 ∨ n > 0xDBFF then pure (utf8 n)
  else
    match ← peek with
    | some 92 => eat
    | some _ => do eat; syntaxHere .unexpectedEndOfHexEscape
    | none => syntaxHere .eofWhileParsingString
    match ← peek with
    | some 117 => eat
    | some _ => do eat; syntaxHere .unexpectedEndOfHexEscape
    | none => syntaxHere .eofWhileParsingString
    let n2 ← hexEscape
    if n2 < 0xDC00 ∨ n2 > 0xDFFF then syntaxHere .loneLeadingSurrogateInHexEscape
    else pure (utf8 ((n - 0xD800) * 1024 + (n2 - 0xDC00) + 0x10000))

/-- The bytes of one escape, the backslash consumed. -/
def escape : TextReader (List UInt8) := do
  match ← next with
  | none => syntaxHere .eofWhileParsingString
  | some 34 => pure [34]
  | some 92 => pure [92]
  | some 47 => pure [47]
  | some 98 => pure [8]
  | some 102 => pure [12]
  | some 110 => pure [10]
  | some 114 => pure [13]
  | some 116 => pure [9]
  | some 117 => unicodeEscape
  | some _ => syntaxHere .invalidEscape

/-- The rest of a string, the opening quote consumed, within `fuel` escapes. -/
def stringBody : Nat → List UInt8 → TextReader String
  | 0, _ => syntaxHere .eofWhileParsingString
  | fuel + 1, acc => do
    let b ← read
    let p ← index
    let q := plainRun b p
    let run ← takeUpTo q
    let acc := acc ++ run
    match ← peek with
    | none => syntaxHere .eofWhileParsingString
    | some 34 =>
      eat
      match String.fromUTF8? (ByteArray.mk acc.toArray) with
      | some s => pure s
      | none => syntaxHere .invalidUnicodeCodePoint
    | some 92 =>
      eat
      let e ← escape
      stringBody fuel (acc ++ e)
    | some _ =>
      eat
      syntaxHere .controlCharacterWhileParsingString

/-- A string, the opening quote consumed. -/
def string : TextReader String := do
  let b ← read
  stringBody (b.size + 1) []

/-! ## Numbers -/

/-- A number as read: an integer that fits, or a double. -/
inductive Number where
  | unsigned (n : Nat)
  | signed (n : Int)
  | double (x : Float)

/-- The value of a decimal digit byte. -/
def digit? (c : Option UInt8) : Option Nat :=
  match c with
  | some c => if 48 ≤ c && c ≤ 57 then some (c - 48).toNat else none
  | none => none

/-- Largest significand kept. -/
def significandLimit : Nat := 2 ^ 64 - 1

/-- Digits from the index: each is added to the significand while it fits, else counted in
`dropped`. Returns the significand, the digits read and the digits dropped. -/
def digitsFrom (b : ByteArray) (p : Nat) (sig : Nat) (read dropped : Nat) :
    Nat × Nat × Nat × Nat :=
  if h : p < b.size then
    match digit? (some b[p]) with
    | some d =>
      if dropped = 0 ∧ sig * 10 + d ≤ significandLimit then digitsFrom b (p + 1) (sig * 10 + d) (read + 1) 0
      else digitsFrom b (p + 1) sig (read + 1) (dropped + 1)
    | none => (sig, read, dropped, p)
  else (sig, read, dropped, p)
termination_by b.size - p

/-- Read digits, returning the significand, the count read and the count dropped. -/
def digits (sig : Nat) : TextReader (Nat × Nat × Nat) := fun b p =>
  let (sig, n, dropped, q) := digitsFrom b p sig 0 0
  .ok ((sig, n, dropped), q)

/-- The double for a significand and decimal exponent, or out of range: the significand is
rounded to a double and then scaled by the double nearest to a power of ten, in steps of
`10 ^ 308` while the power is larger. -/
def double (positive : Bool) (sig : Nat) (exp : Int) : TextReader Float :=
  match Decimal.scaleStepwise sig exp with
  | some x => pure (if positive then x else -x)
  | none => syntaxHere .numberOutOfRange

/-- Largest exponent written after the `e`: a 32-bit signed word. -/
def exponentLimit : Nat := 2 ^ 31 - 1

/-- Exponent digits from the index, added to `e` while it stays within `exponentLimit`: the
value and the index after the digits, or `none` and the index just past the digit that
passes the limit. -/
def exponentFrom (b : ByteArray) (p : Nat) (e : Nat) : Option Nat × Nat :=
  if h : p < b.size then
    match digit? (some b[p]) with
    | some d =>
      if e * 10 + d > exponentLimit then (none, p + 1) else exponentFrom b (p + 1) (e * 10 + d)
    | none => (some e, p)
  else (some e, p)
termination_by b.size - p

/-- The index after the digits from `p`. -/
def skipDigitsFrom (b : ByteArray) (p : Nat) : Nat :=
  if h : p < b.size then
    if (digit? (some b[p])).isSome then skipDigitsFrom b (p + 1) else p
  else p
termination_by b.size - p

/-- Clamp to a 32-bit signed word. -/
def clampWord (n : Int) : Int := max (-(2 ^ 31)) (min (2 ^ 31 - 1) n)

/-- An exponent part, the `e` consumed. An exponent past `exponentLimit` is out of range for
a non-zero significand and a positive exponent; otherwise the value is a zero of the
number's sign, the rest of the digits skipped. -/
def exponentPart (positive : Bool) (sig : Nat) (exp : Int) : TextReader Float := do
  let negative ← match ← peek with
    | some 43 => do eat; pure false
    | some 45 => do eat; pure true
    | _ => pure false
  match ← next with
  | none => syntaxHere .eofWhileParsingValue
  | some c =>
    match digit? (some c) with
    | none => syntaxHere .invalidNumber
    | some d =>
      let e? ← (fun b p => .ok (exponentFrom b p d) : TextReader (Option Nat))
      match e? with
      | some e => double positive sig (clampWord (exp + (if negative then -(e : Int) else e)))
      | none =>
        if sig ≠ 0 ∧ !negative then syntaxHere .numberOutOfRange
        else do
          let () ← (fun b p => .ok ((), skipDigitsFrom b p) : TextReader Unit)
          pure (Decimal.toFloat (!positive) 0 0)

/-- A fraction part, the point consumed. -/
def fractionPart (positive : Bool) (sig : Nat) (exp : Int) : TextReader Float := do
  let (sig', n, dropped) ← digits sig
  if n = 0 then
    match ← peek with
    | some _ => syntaxPeek .invalidNumber
    | none => syntaxPeek .eofWhileParsingValue
  else
    let exp := exp - (n - dropped : Nat)
    match ← peek with
    | some 101 | some 69 => do eat; exponentPart positive sig' exp
    | _ => double positive sig' exp

/-- A number, its sign consumed. -/
def number (positive : Bool) : TextReader Number := do
  match ← next with
  | none => syntaxHere .eofWhileParsingValue
  | some c =>
    match digit? (some c) with
    | none => syntaxHere .invalidNumber
    | some d => do
      let (sig, dropped) ← if d = 0 then do
          if (digit? (← peek)).isSome then syntaxPeek .invalidNumber
          else pure (0, 0)
        else do
          let (sig, _, dropped) ← digits d
          pure (sig, dropped)
      match ← peek with
      | some 46 => do eat; pure (.double (← fractionPart positive sig dropped))
      | some 101 | some 69 => do eat; pure (.double (← exponentPart positive sig dropped))
      | _ =>
        if dropped > 0 then pure (.double (← double positive sig dropped))
        else if positive then pure (.unsigned sig)
        else if sig = 0 then pure (.double (Decimal.toFloat true 0 0))
        else if sig ≤ 2 ^ 63 then pure (.signed (-(sig : Int)))
        else pure (.double (Decimal.toFloat true sig 0))

/-- Match the rest of a literal word, its first letter consumed. -/
def word (rest : List UInt8) : TextReader Unit :=
  rest.forM fun c => do
    match ← next with
    | some c' => if c' == c then pure () else syntaxHere .expectedSomeIdent
    | none => syntaxHere .eofWhileParsingValue

end TextReader

/-! ## Values -/

/-- A number as a value. -/
def numberValue : TextReader.Number → TextReader Json
  | .unsigned n => pure (.int n)
  | .signed n => pure (.int n)
  | .double x => pure (.float x)

open TextReader in
mutual

/-- One value, within `fuel` steps and `depth` levels of nesting. -/
def readValue : Nat → Nat → TextReader Json
  | 0, _ => syntaxHere .recursionLimitExceeded
  | fuel + 1, depth => do
    match ← peekPastBlank with
    | none => syntaxPeek .eofWhileParsingValue
    | some 110 => do eat; word [117, 108, 108]; pure .null
    | some 116 => do eat; word [114, 117, 101]; pure (.bool true)
    | some 102 => do eat; word [97, 108, 115, 101]; pure (.bool false)
    | some 45 => do eat; numberValue (← number false)
    | some 34 => do eat; pure (.str (← string))
    | some 91 =>
      if depth = 0 then syntaxPeek .recursionLimitExceeded
      else do
        eat
        let items ← readItems fuel (depth - 1) true []
        match ← peekPastBlank with
        | some 93 => do eat; pure (.arr items)
        | some 44 => do
          eat
          match ← peekPastBlank with
          | some 93 => syntaxPeek .trailingComma
          | _ => syntaxPeek .trailingCharacters
        | some _ => syntaxPeek .trailingCharacters
        | none => syntaxPeek .eofWhileParsingList
    | some 123 =>
      if depth = 0 then syntaxPeek .recursionLimitExceeded
      else do
        eat
        let fields ← readFields fuel (depth - 1) true []
        match ← peekPastBlank with
        | some 125 => do eat; pure (.obj fields)
        | some 44 => syntaxPeek .trailingComma
        | some _ => syntaxPeek .trailingCharacters
        | none => syntaxPeek .eofWhileParsingObject
    | some c =>
      if (digit? (some c)).isSome then numberValue (← number true)
      else syntaxPeek .expectedSomeValue

/-- The items of an array up to its closing bracket, which is left to read. -/
def readItems : Nat → Nat → Bool → List Json → TextReader (List Json)
  | 0, _, _, _ => syntaxHere .recursionLimitExceeded
  | fuel + 1, depth, first, acc => do
    match ← peekPastBlank with
    | none => syntaxPeek .eofWhileParsingList
    | some 93 => pure acc
    | some c =>
      if !first then
        if c == 44 then
          eat
          match ← peekPastBlank with
          | some 93 => syntaxPeek .trailingComma
          | some _ => pure ()
          | none => syntaxPeek .eofWhileParsingValue
        else syntaxPeek .expectedListCommaOrEnd
      let v ← readValue fuel depth
      readItems fuel depth false (acc ++ [v])

/-- The fields of an object up to its closing brace, which is left to read. A repeated key
keeps its last value. -/
def readFields : Nat → Nat → Bool → List (String × Json) → TextReader (List (String × Json))
  | 0, _, _, _ => syntaxHere .recursionLimitExceeded
  | fuel + 1, depth, first, acc => do
    match ← peekPastBlank with
    | none => syntaxPeek .eofWhileParsingObject
    | some 125 => pure acc
    | some c =>
      if first then
        if c != 34 then syntaxPeek .keyMustBeAString
      else if c == 44 then
        eat
        match ← peekPastBlank with
        | some 34 => pure ()
        | some 125 => syntaxPeek .trailingComma
        | some _ => syntaxPeek .keyMustBeAString
        | none => syntaxPeek .eofWhileParsingValue
      else syntaxPeek .expectedObjectCommaOrEnd
      eat
      let k ← string
      match ← peekPastBlank with
      | some 58 => eat
      | some _ => syntaxPeek .expectedColon
      | none => syntaxPeek .eofWhileParsingObject
      let v ← readValue fuel depth
      readFields fuel depth false (setField acc k v)

end

/-- Levels of nesting the reader accepts. -/
def depthLimit : Nat := 128

/-- Read a whole text as one value, blanks allowed around it. -/
def parse (text : String) : Except String Json :=
  let b := text.toUTF8
  let go : TextReader Json := do
    let v ← readValue (2 * b.size + 2) depthLimit
    match ← TextReader.peekPastBlank with
    | some _ => TextReader.syntaxPeek .trailingCharacters
    | none => pure v
  match (go.run b).run 0 with
  | .ok (v, _) => .ok v
  | .error e => .error (e.message b)

end Json

end SeriesStore
