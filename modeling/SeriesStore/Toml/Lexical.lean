import SeriesStore.Toml.Grammar
import SeriesStore.Number.Decimal

/-!
# TOML lexical rules

Whitespace, comments and line ends; keys; the four kinds of string; integers in four bases,
floats and date-times.

Where a rule commits, and the words its failures carry, decide the messages a reader sees:
a string left open fails as `invalid basic string` where it ends, a bad escape as
`invalid escape sequence` with the letters accepted, a `_` not followed by a digit as
`expected digit`. An integer beyond 64 bits is refused with the cause
`number too large to fit in target type` (or `too small`), where it starts; a float is read to
the nearest double and refused only when it rounds to positive infinity.
-/

namespace SeriesStore

namespace Toml

open Grammar

/-! ## Byte classes -/

/-- A byte between two bounds. -/
def inRange (lo hi : UInt8) (b : UInt8) : Bool := lo ≤ b && b ≤ hi

/-- A space or a tab. -/
def isWsChar (b : UInt8) : Bool := b == 0x20 || b == 0x09

/-- A byte of a character beyond ASCII. -/
def isNonAscii (b : UInt8) : Bool := b ≥ 0x80

/-- A decimal digit. -/
def isDigit (b : UInt8) : Bool := inRange 0x30 0x39 b

/-- A hexadecimal digit, either case. -/
def isHexDigit (b : UInt8) : Bool := isDigit b || inRange 0x41 0x46 b || inRange 0x61 0x66 b

/-- A byte allowed in a bare key: a letter, a digit, `-` or `_`. -/
def isBareKeyChar (b : UInt8) : Bool :=
  inRange 0x41 0x5A b || inRange 0x61 0x7A b || isDigit b || b == 0x2D || b == 0x5F

/-- A byte allowed in a comment. -/
def isCommentChar (b : UInt8) : Bool := b == 0x09 || inRange 0x20 0x7E b || isNonAscii b

/-- A byte a basic string holds as it is. -/
def isBasicUnescaped (b : UInt8) : Bool :=
  isWsChar b || b == 0x21 || inRange 0x23 0x5B b || inRange 0x5D 0x7E b || isNonAscii b

/-- A byte a literal string may hold. -/
def isLiteralChar (b : UInt8) : Bool :=
  b == 0x09 || inRange 0x20 0x26 b || inRange 0x28 0x7E b || isNonAscii b

/-! ## Whitespace, comments and line ends -/

/-- Spaces and tabs. -/
def ws : Grammar Unit := discard (takeWhile isWsChar)

/-- A comment, up to the end of its line. -/
def comment : Grammar Unit := do
  byte '#'
  discard (takeWhile isCommentChar)

/-- A line feed, alone or after a carriage return. -/
def newline : Grammar Unit := orElse (byte '\n') (do byte '\r'; byte '\n')

/-- The end of a line or of the text. -/
def lineEnding : Grammar Unit := orElse newline eof

/-- What may follow an item on its line: spaces, a comment, the line end. -/
def lineTrailing : Grammar Unit := do
  ws
  discard (optional comment)
  lineEnding

/-- Spaces, tabs and line ends. -/
def wsNewline : Grammar Unit := discard (many (orElse newline (discard (takeWhile1 isWsChar))))

/-- A line end, then spaces, tabs and line ends. -/
def wsNewlines : Grammar Unit := do
  newline
  wsNewline

/-- Spaces, comments and line ends, as between the items of an array, at most `fuel` rounds. -/
def wsCommentNewlineFrom : Nat → Grammar Unit
  | 0 => pure ()
  | fuel + 1 => do
    let start ← offset
    ws
    match ← peekByte with
    | some 0x23 => do comment; newline
    | some 0x0A | some 0x0D => newline
    | _ => pure ()
    if (← offset) == start then pure () else wsCommentNewlineFrom fuel

/-- Spaces, comments and line ends. -/
def wsCommentNewline : Grammar Unit := do
  wsCommentNewlineFrom ((← read).size + 1 - (← offset))

/-! ## Strings -/

/-- The character of a hexadecimal escape of `n` digits. -/
def hexEscape (n : Nat) : Grammar Char := do
  let r ← takeBetween 0 n isHexDigit
  if r.stop - r.start != n then throw (Failure.here r.start)
  let digits ← slice r.start r.stop
  let v := digits.foldl (fun acc c =>
    acc * 16 + (if c.isDigit then c.toNat - 48 else (c.toLower.toNat - 87))) 0
  if h : v.isValidChar then pure ⟨v.toUInt32, by
      have hv : v < 0x110000 := by
        unfold Nat.isValidChar at h
        omega
      have hnat : v.toUInt32.toNat = v := by
        rw [Nat.toUInt32_eq, UInt32.toNat_ofNat', Nat.mod_eq_of_lt (by omega)]
      show v.toUInt32.toNat.isValidChar
      rw [hnat]
      exact h⟩
  else throw (Failure.because r.start "value is out of range")

/-- The letters an escape may use, as a failure lists them. -/
def escapeLetters : List String :=
  ["`b`", "`f`", "`n`", "`r`", "`t`", "`u`", "`U`", "`\\`", "`\"`"]

/-- The character an escape stands for, after its backslash. -/
def escapeSeqChar : Grammar Char := do
  match ← peekByte with
  | none => failHere
  | some b => do
    modify (· + 1)
    match b with
    | 0x62 => pure '\x08'
    | 0x66 => pure '\x0c'
    | 0x6E => pure '\n'
    | 0x72 => pure '\r'
    | 0x74 => pure '\t'
    | 0x75 => label "unicode 4-digit hex code" (commit (hexEscape 4))
    | 0x55 => label "unicode 8-digit hex code" (commit (hexEscape 8))
    | 0x5C => pure '\\'
    | 0x22 => pure '"'
    | _ =>
      tryCatch (commit (label "escape sequence" failHere)) fun e =>
        throw { e with context := e.context ++ escapeLetters.map Context.expected }

/-- An escape: a backslash and what it stands for. -/
def escaped : Grammar Char := do
  byte '\\'
  escapeSeqChar

/-- A run of plain characters or one escape, in a basic string. -/
def basicChars : Grammar String :=
  orElse (text (takeWhile1 isBasicUnescaped)) (String.singleton <$> escaped)

/-- A basic string, in double quotes. -/
def basicString : Grammar String := do
  byte '"'
  let parts ← many basicChars
  label "basic string" (commit (byte '"'))
  pure (String.join parts)

/-- A backslash at the end of a line: it and the blank space after it are dropped. -/
def escapedNewline : Grammar Unit := discard (many1 (do byte '\\'; ws; wsNewlines))

/-- A piece of a multi-line basic string. -/
def multiBasicContent : Grammar String :=
  orElse (text (takeWhile1 isBasicUnescaped))
    (orElse (do escapedNewline; pure "")
      (orElse (String.singleton <$> escaped) (do newline; pure "\n")))

/-- One or two quote characters `q` followed, without reading it, by `after`. -/
def quotesBefore (q : Char) (after : Grammar Unit) : Grammar String :=
  orElse (do literal (String.ofList [q, q]); lookAhead after; pure (String.ofList [q, q]))
    (do byte q; lookAhead after; pure (String.singleton q))

/-- The rest of a multi-line basic string body after quotes: content, then further quotes and
content while they come. -/
def multiBasicQuotes : Nat → String → Grammar String
  | 0, acc => pure acc
  | fuel + 1, acc => do
    match ← optional (quotesBefore '"' (byteOtherThan '"')) with
    | none => pure acc
    | some q => do
      match ← optional multiBasicContent with
      | none => pure acc
      | some c => do
        let more ← many multiBasicContent
        multiBasicQuotes fuel (acc ++ q ++ c ++ String.join more)

/-- The body of a multi-line basic string. -/
def multiBasicBody : Grammar String := do
  let first ← many multiBasicContent
  let body ← multiBasicQuotes ((← read).size + 1 - (← offset)) (String.join first)
  match ← optional (quotesBefore '"' (literal "\"\"\"")) with
  | some q => pure (body ++ q)
  | none => pure body

/-- A multi-line basic string, in tripled double quotes; a line end right after the opening is
dropped. -/
def multiBasicString : Grammar String := label "multiline basic string" do
  literal "\"\"\""
  discard (optional newline)
  let body ← commit multiBasicBody
  commit (literal "\"\"\"")
  pure body

/-- A literal string, in single quotes. -/
def literalString : Grammar String := label "literal string" do
  byte '\''
  let r ← commit (takeWhile isLiteralChar)
  commit (byte '\'')
  slice r.start r.stop

/-- A character or a line end of a multi-line literal string. -/
def multiLiteralContent : Grammar Unit := orElse (discard (byteWhere isLiteralChar)) newline

/-- Line ends written `\r\n` read as `\n`. -/
def unixLines (s : String) : String := "\n".intercalate (s.splitOn "\r\n")

/-- The body of a multi-line literal string. -/
def multiLiteralBody : Grammar String := do
  let start ← offset
  discard (many multiLiteralContent)
  discard (many (do
    discard (quotesBefore '\'' (byteOtherThan '\''))
    discard (many1 multiLiteralContent)))
  discard (optional (quotesBefore '\'' (literal "'''")))
  pure (unixLines (← slice start (← offset)))

/-- A multi-line literal string, in tripled single quotes. -/
def multiLiteralString : Grammar String := label "multiline literal string" do
  literal "'''"
  discard (optional newline)
  let body ← commit multiLiteralBody
  commit (literal "'''")
  pure body

/-- A string of any kind. -/
def string : Grammar String :=
  orElse multiBasicString (orElse basicString (orElse multiLiteralString literalString))

/-! ## Keys -/

/-- A key of one part: bare, or quoted as a basic or literal string. -/
def simpleKey : Grammar Name := do
  let start ← offset
  let name ← match ← peekByte with
    | some 0x22 => basicString
    | some 0x27 => literalString
    | _ => text (takeWhile1 isBareKeyChar)
  let stop ← offset
  pure { text := name, raw := ← slice start stop, span := some ⟨start, stop⟩ }

/-- A key of one or more parts joined by dots, blank space allowed around each part. -/
def key : Grammar (List Name) :=
  label "key" (sepBy1 (do ws; let k ← simpleKey; ws; pure k) (byte '.'))

/-! ## Numbers -/

/-- More digits after a first one, a single `_` allowed between two. -/
def digitsAfter (ok : UInt8 → Bool) : Grammar Unit :=
  discard (many (orElse (discard (byteWhere ok))
    (do byte '_'; expecting "digit" (commit (discard (byteWhere ok))))))

/-- A sign. -/
def isSign (b : UInt8) : Bool := b == 0x2B || b == 0x2D

/-- A decimal integer as written: a sign, then `0` or digits not starting with `0`. -/
def decInt : Grammar String := label "integer" do
  let start ← offset
  discard (optional (byteWhere isSign))
  orElse (do discard (byteWhere (inRange 0x31 0x39)); digitsAfter isDigit)
    (discard (byteWhere isDigit))
  slice start (← offset)

/-- Digits with `_` allowed between them. -/
def zeroPrefixableInt : Grammar Unit := do
  discard (byteWhere isDigit)
  digitsAfter isDigit

/-- The fraction of a float: a point and digits. -/
def fraction : Grammar Unit := do
  byte '.'
  expecting "digit" (commit zeroPrefixableInt)

/-- The exponent of a float. -/
def exponent : Grammar Unit := do
  discard (byteWhere fun b => b == 0x65 || b == 0x45)
  discard (optional (byteWhere isSign))
  commit zeroPrefixableInt

/-- The digits of a text, in order, and where its point and exponent fall. -/
structure DecimalText where
  negative : Bool
  digits : Nat
  exponent : Int

/-- Read a float as written (underscores removed) into its digits and decimal exponent. -/
def DecimalText.ofText (s : String) : DecimalText :=
  let cs := s.toList.filter (· != '_')
  let (negative, cs) := match cs with
    | '-' :: rest => (true, rest)
    | '+' :: rest => (false, rest)
    | _ => (false, cs)
  let mantissa := cs.takeWhile fun c => c != 'e' && c != 'E'
  let expPart := (cs.dropWhile fun c => c != 'e' && c != 'E').drop 1
  let whole := mantissa.takeWhile (· != '.')
  let frac := (mantissa.dropWhile (· != '.')).drop 1
  let digitValue (ds : List Char) : Nat := ds.foldl (fun acc c => acc * 10 + (c.toNat - 48)) 0
  let e : Int := match expPart with
    | '-' :: ds => -(digitValue ds : Int)
    | '+' :: ds => digitValue ds
    | ds => digitValue ds
  ⟨negative, digitValue (whole ++ frac), e - frac.length⟩

/-- The double nearest to a float as written. -/
def floatOfText (s : String) : Float :=
  let d := DecimalText.ofText s
  Decimal.toFloat d.negative d.digits d.exponent

/-- `inf` or `nan`, signed. -/
def specialFloat : Grammar Float := do
  let sign ← optional (byteWhere isSign)
  let x ← orElse (do literal "inf"; pure (Decimal.toFloat false 1 400))
    (do literal "nan"; pure (0.0 / 0.0 : Float))
  pure (if sign == some 0x2D then -x else x)

/-- A float: an integer part and a fraction, an exponent or both; or `inf` or `nan`. One that
rounds to positive infinity is refused. -/
def float : Grammar Float := label "floating-point number" (orElse
  (do
    let start ← offset
    let t ← do
      let s ← offset
      discard decInt
      orElse exponent (do fraction; discard (optional exponent))
      slice s (← offset)
    let x := floatOfText t
    if x.isInf && x > 0 then throw { Failure.here start with committed := true } else pure x)
  specialFloat)

/-- The value of digits in a base, underscores skipped. -/
def digitsValue (base : Nat) (s : String) : Nat :=
  s.foldl (fun acc c =>
    if c == '_' then acc
    else acc * base + (if c.isDigit then c.toNat - 48 else c.toLower.toNat - 87)) 0

/-- The largest value of a signed 64-bit integer. -/
def maxI64 : Int := 2 ^ 63 - 1

/-- An integer in base 16, 8 or 2 after its prefix. -/
def radixInt (base : Nat) (pfx : String) (ok : UInt8 → Bool) (name : String) : Grammar Int :=
  commit (refine
    (label name do
      literal pfx
      let s ← offset
      commit (do discard (byteWhere ok); digitsAfter ok)
      slice s (← offset))
    fun digits =>
      let v := digitsValue base digits
      if (v : Int) ≤ maxI64 then .ok v else .error "number too large to fit in target type")

/-- The value of a decimal integer as written, if it fits in 64 bits. -/
def decIntValue (s : String) : Except String Int :=
  let negative := s.startsWith "-"
  let v : Int := digitsValue 10 (s.dropWhile fun c => c == '+' || c == '-').copy
  let n := if negative then -v else v
  if n > maxI64 then .error "number too large to fit in target type"
  else if n < -maxI64 - 1 then .error "number too small to fit in target type"
  else .ok n

/-- An integer: hexadecimal after `0x`, octal after `0o`, binary after `0b`, else decimal. -/
def integer : Grammar Int := do
  let src ← read
  let p ← offset
  let two := (src.extract p (p + 2)).toList
  if two == "0x".toUTF8.toList then radixInt 16 "0x" isHexDigit "hexadecimal integer"
  else if two == "0o".toUTF8.toList then radixInt 8 "0o" (inRange 0x30 0x37) "octal integer"
  else if two == "0b".toUTF8.toList then radixInt 2 "0b" (inRange 0x30 0x31) "binary integer"
  else do
    let start ← offset
    let t ← decInt
    match decIntValue t with
    | .ok n => pure n
    | .error cause => throw { Failure.because start cause with committed := true }

/-! ## Dates and times -/

/-- Exactly `n` digits and their value. -/
def fixedDigits (n : Nat) : Grammar Nat := do
  let r ← takeBetween n n isDigit
  pure (digitsValue 10 (← slice r.start r.stop))

/-- Two digits within bounds. -/
def twoDigitsIn (lo hi : Nat) : Grammar Nat :=
  refine (fixedDigits 2) fun d => if lo ≤ d ∧ d ≤ hi then .ok d else .error "value is out of range"

/-- Whether a year is a leap year. -/
def isLeapYear (y : Nat) : Bool := y % 4 == 0 && (y % 100 != 0 || y % 400 == 0)

/-- A date: year, month and day, the day checked against the month. -/
def fullDate : Grammar Unit := do
  let year ← fixedDigits 4
  byte '-'
  let month ← commit (twoDigitsIn 1 12)
  commit (byte '-')
  let dayStart ← offset
  let day ← commit (twoDigitsIn 1 31)
  let most := if month == 2 then (if isLeapYear year then 29 else 28)
    else if month == 4 || month == 6 || month == 9 || month == 11 then 30 else 31
  if most < day then throw { Failure.because dayStart "value is out of range" with committed := true }

/-- A time of day: hours, minutes, seconds and an optional fraction. -/
def partialTime : Grammar Unit := do
  discard (twoDigitsIn 0 23)
  byte ':'
  commit (do
    discard (twoDigitsIn 0 59)
    byte ':'
    discard (twoDigitsIn 0 60)
    discard (optional (do byte '.'; discard (takeWhile1 isDigit))))

/-- A time offset: `Z`, or a signed hours and minutes. -/
def timeOffset : Grammar Unit := label "time offset" (orElse
  (discard (byteWhere fun b => b == 0x5A || b == 0x7A))
  (do
    discard (byteWhere isSign)
    commit (do discard (twoDigitsIn 0 23); byte ':'; discard (twoDigitsIn 0 59))))

/-- A date-time, a date or a time, as written. -/
def dateTime : Grammar String := do
  let start ← offset
  orElse
    (label "date-time" do
      fullDate
      discard (optional (do
        discard (byteWhere fun b => b == 0x54 || b == 0x74 || b == 0x20)
        partialTime
        discard (optional timeOffset))))
    (label "time" partialTime)
  slice start (← offset)

end Toml

end SeriesStore
