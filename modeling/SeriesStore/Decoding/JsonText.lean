import SeriesStore.Decoding.Basic
import SeriesStore.Json.Read
import SeriesStore.Json.Render

/-!
# Typed reading of JSON text

`FieldReader` reads typed values straight from JSON text, left to right, stopping at the first
failure: a failure in a value is reported even when the text is malformed further on.

A failure of the data model (a missing or repeated field, a value a typed reader refuses) has
no place of its own. It is placed where the reader stands once the innermost container holding
it has been closed as far as it can be: blanks are passed over and a closing bracket of the right
kind consumed. A value of the wrong kind is placed just past it, after reading it whole to name
it. Malformed text is placed as `Json.TextReader` places it.

Values the typed readers pass over are checked for form only: numbers are not converted, so none
is out of range, and escapes are not decoded.
-/

namespace SeriesStore

/-- Typed reading of JSON text: the bytes are fixed, the index survives a failure. -/
abbrev FieldReader := ReaderT ByteArray (ExceptT Json.ReadError (StateM Nat))

namespace FieldReader

open Json (Syntax ReadError)

/-- Run a reader of the text. -/
def ofText {α : Type} (r : Json.TextReader α) : FieldReader α := fun b => ExceptT.mk fun p =>
  match (r.run b).run p with
  | .ok (a, q) => (.ok a, q)
  | .error e => (.error e, p)

/-- The index. -/
def index : FieldReader Nat := ofText Json.TextReader.index

/-- Step over one byte. -/
def eat : FieldReader Unit := ofText Json.TextReader.eat

/-- The byte at the index. -/
def peek : FieldReader (Option UInt8) := ofText Json.TextReader.peek

/-- Skip blanks, then look at the next byte. -/
def peekBlank : FieldReader (Option UInt8) := ofText Json.TextReader.peekPastBlank

/-- Fail with malformed text, just past the byte looked at. -/
def syntaxPeek {α : Type} (k : Syntax) : FieldReader α := ofText (Json.TextReader.syntaxPeek k)

/-- Fail with malformed text at the index. -/
def syntaxHere {α : Type} (k : Syntax) : FieldReader α := ofText (Json.TextReader.syntaxHere k)

/-- Fail with a message that is placed later. -/
def custom {α : Type} (message : String) : FieldReader α := throw ⟨message, none⟩

/-- Place a failure that has no place yet at the index. -/
def place (e : ReadError) : FieldReader ReadError := do
  match e.at? with
  | some _ => pure e
  | none => pure { e with at? := some (← index) }

/-- Fail with a message placed at the index. -/
def failHere {α : Type} (message : String) : FieldReader α := do
  throw (← place ⟨message, none⟩)

/-- How JSON words what it found: `null`, and numbers in their shortest form. -/
def wording : UnexpectedWording := ⟨"null", Json.floatWord⟩

/-- Whether a byte is a decimal digit. -/
def isDigit (c : UInt8) : Bool := 48 ≤ c && c ≤ 57

/-- A number read as what it was found to be. -/
def numberFound : Json.TextReader.Number → Unexpected
  | .unsigned n => .integer n
  | .signed n => .integer n
  | .double x => .float x

/-- The value at the index, read whole to name it, refused as not of the kind expected. -/
def unexpected {α : Type} (expected : String) : FieldReader α := do
  let found ← match ← peek with
    | some 110 => do eat; ofText (Json.TextReader.word [117, 108, 108]); pure Unexpected.null
    | some 116 => do eat; ofText (Json.TextReader.word [114, 117, 101]); pure (.bool true)
    | some 102 => do eat; ofText (Json.TextReader.word [97, 108, 115, 101]); pure (.bool false)
    | some 45 => do eat; pure (numberFound (← ofText (Json.TextReader.number false)))
    | some 34 => do eat; pure (.string (← ofText Json.TextReader.string))
    | some 91 => pure .seq
    | some 123 => pure .map
    | some c =>
      if isDigit c then pure (numberFound (← ofText (Json.TextReader.number true)))
      else syntaxPeek .expectedSomeValue
    | none => syntaxPeek .expectedSomeValue
  failHere (Decoding.invalidType wording found expected)

/-- Skip blanks to the start of a value. -/
def valueStart : FieldReader UInt8 := do
  match ← peekBlank with
  | some c => pure c
  | none => syntaxPeek .eofWhileParsingValue

/-! ## Closing containers -/

/-- Close a sequence after its items. -/
def endSeq : FieldReader Unit := do
  match ← peekBlank with
  | some 93 => eat
  | some 44 =>
    eat
    match ← peekBlank with
    | some 93 => syntaxPeek .trailingComma
    | _ => syntaxPeek .trailingCharacters
  | some _ => syntaxPeek .trailingCharacters
  | none => syntaxPeek .eofWhileParsingList

/-- Close a map after its entries. -/
def endMap : FieldReader Unit := do
  match ← peekBlank with
  | some 125 => eat
  | some 44 => syntaxPeek .trailingComma
  | some _ => syntaxPeek .trailingCharacters
  | none => syntaxPeek .eofWhileParsingObject

/-- Read the inside of a container, then close it; a failure inside is placed once the
container is closed as far as it can be. -/
def enclosed {α : Type} (inside : FieldReader α) (close : FieldReader Unit) : FieldReader α :=
  tryCatch (do let v ← inside; close; pure v) fun e => do
    match e.at? with
    | some _ => throw e
    | none => tryCatch close (fun _ => pure ()); throw (← place e)

/-! ## Sequences and maps -/

/-- Whether another item follows in a sequence. -/
def hasNextItem (first : Bool) : FieldReader Bool := do
  match ← peekBlank with
  | none => syntaxPeek .eofWhileParsingList
  | some 93 => pure false
  | some c =>
    if first then pure true
    else if c == 44 then do
      eat
      match ← peekBlank with
      | some 93 => syntaxPeek .trailingComma
      | some _ => pure true
      | none => syntaxPeek .eofWhileParsingValue
    else syntaxPeek .expectedListCommaOrEnd

/-- The items of a sequence, within `fuel` items. -/
def items {α : Type} (item : FieldReader α) : Nat → Bool → List α → FieldReader (List α)
  | 0, _, acc => pure acc
  | fuel + 1, first, acc => do
    if ← hasNextItem first then items item fuel false (acc ++ [← item])
    else pure acc

/-- The next key of a map, if any. -/
def nextKey (first : Bool) : FieldReader (Option String) := do
  let c ← match ← peekBlank with
    | some 125 => return none
    | some 44 =>
      if first then syntaxPeek .keyMustBeAString
      else do eat; peekBlank
    | some c => if first then pure (some c) else syntaxPeek .expectedObjectCommaOrEnd
    | none => syntaxPeek .eofWhileParsingObject
  match c with
  | some 34 => do eat; pure (some (← ofText Json.TextReader.string))
  | some 125 => syntaxPeek .trailingComma
  | some _ => syntaxPeek .keyMustBeAString
  | none => syntaxPeek .eofWhileParsingValue

/-- The colon between a key and its value. -/
def colon : FieldReader Unit := do
  match ← peekBlank with
  | some 58 => eat
  | some _ => syntaxPeek .expectedColon
  | none => syntaxPeek .eofWhileParsingObject

/-- The entries of a map, within `fuel` entries. -/
def entries {α : Type} (value : FieldReader α) :
    Nat → Bool → List (String × α) → FieldReader (List (String × α))
  | 0, _, acc => pure acc
  | fuel + 1, first, acc => do
    match ← nextKey first with
    | none => pure acc
    | some k => do
      colon
      let v ← value
      entries value fuel false (acc ++ [(k, v)])

/-- A bound on the items of a container: one per byte left. -/
def itemBound : FieldReader Nat := do
  let b ← read
  pure (b.size + 1 - (← index))

/-! ## Passing over a value -/

/-- Pass over the digits at the index. -/
def skipDigits : FieldReader Unit := fun b => ExceptT.mk fun p =>
  let q := (Json.TextReader.digitsFrom b p 0 0 0).2.2.2
  (.ok (), q)

/-- Pass over an exponent, at its `e`. -/
def ignoreExponent : FieldReader Unit := do
  eat
  match ← peek with
  | some 43 | some 45 => eat
  | _ => pure ()
  match ← peek with
  | some c => if isDigit c then do eat; skipDigits else do eat; syntaxHere .invalidNumber
  | none => syntaxHere .invalidNumber

/-- Pass over a fraction, at its point. -/
def ignoreFraction : FieldReader Unit := do
  eat
  let p ← index
  skipDigits
  if (← index) = p then syntaxPeek .invalidNumber
  match ← peek with
  | some 101 | some 69 => ignoreExponent
  | _ => pure ()

/-- Pass over a number, its sign consumed. -/
def ignoreNumber : FieldReader Unit := do
  match ← peek with
  | some 48 =>
    eat
    match ← peek with
    | some c => if isDigit c then syntaxPeek .invalidNumber
    | none => pure ()
  | some c =>
    if isDigit c then do eat; skipDigits
    else do eat; syntaxHere .invalidNumber
  | none => syntaxHere .invalidNumber
  match ← peek with
  | some 46 => ignoreFraction
  | some 101 | some 69 => ignoreExponent
  | _ => pure ()

/-- Pass over one escape, the backslash consumed. -/
def ignoreEscape : FieldReader Unit := do
  match ← peek with
  | none => syntaxHere .eofWhileParsingString
  | some c =>
    eat
    if c == 117 then do let _ ← ofText Json.TextReader.hexEscape
    else if [34, 92, 47, 98, 102, 110, 114, 116].contains c then pure ()
    else syntaxHere .invalidEscape

/-- Pass over the rest of a string, the opening quote consumed, within `fuel` escapes. -/
def ignoreString : Nat → FieldReader Unit
  | 0 => syntaxHere .eofWhileParsingString
  | fuel + 1 => do
    let b ← read
    let q := Json.TextReader.plainRun b (← index)
    ofText (fun _ _ => .ok ((), q))
    match ← peek with
    | none => syntaxHere .eofWhileParsingString
    | some 34 => eat
    | some 92 => do eat; ignoreEscape; ignoreString fuel
    | some _ => syntaxHere .controlCharacterWhileParsingString

/-- Close the containers that end here, innermost first, within `fuel` steps. Gives the
container the next value belongs to and the ones around it, or nothing once all are closed. -/
def closeFrames : Nat → Bool → UInt8 → List UInt8 → FieldReader (Option (UInt8 × List UInt8))
  | 0, _, _, _ => syntaxPeek .eofWhileParsingValue
  | fuel + 1, acceptComma, frame, stack => do
    match ← peekBlank with
    | some c =>
      if c == 44 && acceptComma then do eat; pure (some (frame, stack))
      else if (c == 93 && frame == 91) || (c == 125 && frame == 123) then do
        eat
        match stack with
        | f :: rest => closeFrames fuel true f rest
        | [] => pure none
      else if acceptComma then
        syntaxPeek (if frame == 91 then .expectedListCommaOrEnd else .expectedObjectCommaOrEnd)
      else pure (some (frame, stack))
    | none =>
      syntaxPeek (if frame == 91 then .eofWhileParsingList else .eofWhileParsingObject)

/-- Pass over values until the outermost container started is closed, within `fuel` values.
`enclosing` is the innermost open container, `stack` those around it. -/
def ignoreFrom : Nat → Option UInt8 → List UInt8 → FieldReader Unit
  | 0, _, _ => syntaxPeek .eofWhileParsingValue
  | fuel + 1, enclosing, stack => do
    let c ← valueStart
    let opened ← if c == 110 then do eat; ofText (Json.TextReader.word [117, 108, 108]); pure none
      else if c == 116 then do eat; ofText (Json.TextReader.word [114, 117, 101]); pure none
      else if c == 102 then do eat; ofText (Json.TextReader.word [97, 108, 115, 101]); pure none
      else if c == 45 then do eat; ignoreNumber; pure none
      else if isDigit c then do ignoreNumber; pure none
      else if c == 34 then do eat; ignoreString ((← read).size + 1); pure none
      else if c == 91 || c == 123 then do eat; pure (some c)
      else syntaxPeek .expectedSomeValue
    -- a container just opened holds the next value; else the innermost one open continues
    let (stack, next) ← match opened, enclosing with
      | some f, _ => pure (enclosing.toList ++ stack, some (false, f))
      | none, some f => pure (stack, some (true, f))
      | none, none =>
        match stack with
        | f :: rest => pure (rest, some (true, f))
        | [] => pure (stack, none)
    match next with
    | none => pure ()
    | some (acceptComma, frame) =>
      match ← closeFrames (fuel + 1) acceptComma frame stack with
      | none => pure ()
      | some (frame, stack) =>
        if frame == 123 then
          match ← peekBlank with
          | some 34 => eat
          | some _ => syntaxPeek .keyMustBeAString
          | none => syntaxPeek .eofWhileParsingValue
          ignoreString ((← read).size + 1)
          match ← peekBlank with
          | some 58 => eat
          | some _ => syntaxPeek .expectedColon
          | none => syntaxPeek .eofWhileParsingObject
        ignoreFrom fuel (some frame) stack

/-- Pass over one value of any kind, checking its form. -/
def ignoreValue : FieldReader Unit := do
  ignoreFrom ((← read).size + 1) none []

/-! ## Typed values -/

/-- A string. -/
def string : FieldReader String := do
  if (← valueStart) == 34 then do eat; ofText Json.TextReader.string
  else unexpected "a string"

/-- A boolean. -/
def bool : FieldReader Bool := do
  match ← valueStart with
  | 116 => do eat; ofText (Json.TextReader.word [114, 117, 101]); pure true
  | 102 => do eat; ofText (Json.TextReader.word [97, 108, 115, 101]); pure false
  | _ => unexpected "a boolean"

/-- A whole number below `limit`. -/
def natural (limit : Nat) (expected : String) : FieldReader Nat := do
  let c ← valueStart
  let n ← if c == 45 then do eat; ofText (Json.TextReader.number false)
    else if isDigit c then ofText (Json.TextReader.number true)
    else unexpected expected
  match n with
  | .unsigned n =>
    if n < limit then pure n else failHere (Decoding.invalidValue wording (.integer n) expected)
  | .signed n => failHere (Decoding.invalidValue wording (.integer n) expected)
  | .double x => failHere (Decoding.invalidType wording (.float x) expected)

/-- A value that may be `null`. -/
def option {α : Type} (r : FieldReader α) : FieldReader (Option α) := do
  match ← peekBlank with
  | some 110 => do eat; ofText (Json.TextReader.word [117, 108, 108]); pure none
  | _ => some <$> r

/-- A sequence. -/
def seq {α : Type} (item : FieldReader α) : FieldReader (List α) := do
  if (← valueStart) != 91 then unexpected "a sequence"
  else do
    eat
    enclosed (do items item (← itemBound) true []) endSeq

/-- A map. -/
def map {α : Type} (value : FieldReader α) : FieldReader (List (String × α)) := do
  if (← valueStart) != 123 then unexpected "a map"
  else do
    eat
    enclosed (do entries value (← itemBound) true []) endMap

/-- The fields of a record given as a map, within `fuel` entries; `seen` holds the fields read. -/
def recordFields {σ α : Type} (r : RecordShape FieldReader σ α) :
    Nat → Bool → List Nat → σ → FieldReader α
  | 0, _, _, _ => syntaxPeek .eofWhileParsingObject
  | fuel + 1, first, seen, st => do
    match ← nextKey first with
    | none =>
      match r.firstMissing seen with
      | some name => custom (Decoding.missingField name)
      | none =>
        match r.finish st with
        | .ok v => pure v
        | .error e => custom e
    | some k =>
      match r.position? k with
      | some i =>
        if seen.contains i then custom (Decoding.duplicateField k)
        else do
          colon
          let st ← r.field i st
          recordFields r fuel false (i :: seen) st
      | none =>
        if r.closed then custom (Decoding.unknownField k r.names)
        else do
          colon
          ignoreValue
          recordFields r fuel false seen st

/-- The fields of a record given as a sequence, from field `i` on. -/
def recordItems {σ α : Type} (r : RecordShape FieldReader σ α) :
    List (String × Bool) → Nat → Bool → σ → FieldReader α
  | [], _, _, st =>
    match r.finish st with
    | .ok v => pure v
    | .error e => custom e
  | (_, hasDefault) :: rest, i, first, st => do
    if ← hasNextItem first then
      let st ← r.field i st
      recordItems r rest (i + 1) false st
    else if hasDefault then recordItems r rest (i + 1) first st
    else custom (Decoding.invalidLength i r.lengthExpected)

/-- A record, given as a map or as a sequence. -/
def record {σ α : Type} (r : RecordShape FieldReader σ α) : FieldReader α := do
  let c ← valueStart
  if c == 91 then do
    eat
    enclosed (recordItems r r.fields 0 true r.start) endSeq
  else if c == 123 then do
    eat
    enclosed (do recordFields r (← itemBound) true [] r.start) endMap
  else unexpected r.expected

end FieldReader

instance : FieldSource FieldReader where
  string := FieldReader.string
  bool := FieldReader.bool
  natural := FieldReader.natural
  option := FieldReader.option
  seq := FieldReader.seq
  map := FieldReader.map
  record := FieldReader.record
  fail := FieldReader.custom

/-- Read a whole JSON text with a typed reader; blanks may follow the value. A failure is its
message with its line and column. -/
def FieldReader.decode {α : Type} (r : FieldReader α) (text : String) : Except String α :=
  let b := text.toUTF8
  let whole : FieldReader α := do
    let v ← r
    match ← FieldReader.peekBlank with
    | some _ => FieldReader.syntaxPeek .trailingCharacters
    | none => pure v
  match ((ReaderT.run whole b).run.run 0).1 with
  | .ok v => .ok v
  | .error e => .error (e.message b)

end SeriesStore
