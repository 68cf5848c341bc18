import SeriesStore.Text.PrintableData

/-!
# Escaped text

`Text.escape` writes a text so that nothing in it is invisible: NUL, tab, carriage return
and line feed by their short escapes, a backslash and both quotes behind a backslash, every
character that is not printable as `\u` with its code in braces, and a character that extends
a grapheme the same way when it opens the text (it would otherwise join the quote before it).
`Text.quoted` writes a text between double quotes by the same rules, except that a single quote
is left as it is and a character that extends a grapheme is escaped wherever it stands.
`Text.byteList` writes bytes as a bracketed list of numbers.
-/

namespace SeriesStore

namespace Text

/-- Whether a character is printable. -/
def isPrintable (c : Char) : Bool :=
  !(unprintableRanges.any fun (a, b) => a ≤ c.toNat ∧ c.toNat ≤ b)

/-- Whether a character extends a grapheme. -/
def isGraphemeExtend (c : Char) : Bool :=
  graphemeExtendRanges.any fun (a, b) => a ≤ c.toNat ∧ c.toNat ≤ b

/-- Lower case hexadecimal digits of a number, without leading zeros. -/
def hexDigits (n : Nat) : String :=
  String.ofList ((Nat.toDigits 16 n).map fun d => if d.isDigit then d else d.toLower)

/-- A character by its code: a backslash, `u`, and the hexadecimal code in braces. -/
def codeEscape (c : Char) : String := "\\u" ++ "\x7b" ++ hexDigits c.toNat ++ "\x7d"

/-- One character of an escaped text; `first` tells whether it opens the text. -/
def escapeChar (first : Bool) (c : Char) : String :=
  if c.toNat = 0 then "\\0"
  else if c = '\t' then "\\t"
  else if c = '\r' then "\\r"
  else if c = '\n' then "\\n"
  else if c = '\\' then "\\\\"
  else if c = '"' then "\\\""
  else if c.toNat = 39 then "\\'"
  else if first && isGraphemeExtend c then codeEscape c
  else if isPrintable c then c.toString
  else codeEscape c

/-- A text with its invisible characters escaped. -/
def escape (s : String) : String :=
  match s.toList with
  | [] => ""
  | c :: cs => escapeChar true c ++ String.join (cs.map (escapeChar false))

/-- One character of a quoted text: as `escapeChar` for a character that opens a text, so that a
character that extends a grapheme is escaped, except that a single quote stands as it is. -/
def quotedChar (c : Char) : String :=
  if c.toNat = 39 then c.toString else escapeChar true c

/-- A text in double quotes with its invisible characters escaped. -/
def quoted (s : String) : String := "\"" ++ String.join (s.toList.map quotedChar) ++ "\""

/-- Bytes as a bracketed, comma separated list of numbers. -/
def byteList (bs : List UInt8) : String :=
  "[" ++ ", ".intercalate (bs.map fun b => toString b.toNat) ++ "]"

end Text

end SeriesStore
