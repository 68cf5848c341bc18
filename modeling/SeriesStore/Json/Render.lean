import SeriesStore.Json.Value
import SeriesStore.Number.Shortest

/-!
# Writing JSON text

Numbers: an integer in decimal; a double in its shortest decimal (`Shortest.digits`), written
positionally when the decimal point falls within the first sixteen places
(`12340000000.0`, `12.34`, `0.001234`), else as one digit, an optional fraction and an
exponent (`1e30`, `1.234e-7`); a whole number keeps `.0`, and a double that is not finite is
`null`. Strings: a quote, a backslash and the control characters are escaped, the latter by
their short names (`\n`) or as `\u00xx`; all else is written as it is.
-/

namespace SeriesStore

namespace Json

/-! ## Numbers -/

/-- Zeros. -/
def zeros (n : Nat) : String := String.ofList (List.replicate n '0')

/-- The text of a finite double from its sign and shortest digits: positional when the point
falls within the first sixteen places, else scientific, with a plus sign before a positive
exponent when `plus` asks for one. -/
def layoutDecimal (plus negative : Bool) (c : Nat) (E : Int) : String :=
  let ds := toString c
  let n : Int := ds.length
  let kk := n + E
  let sign := if negative then "-" else ""
  let body :=
    if 0 ≤ E ∧ kk ≤ 16 then ds ++ zeros E.toNat ++ ".0"
    else if 0 < kk ∧ kk ≤ 16 then
      String.ofList (ds.toList.take kk.toNat) ++ "." ++ String.ofList (ds.toList.drop kk.toNat)
    else if -5 < kk ∧ kk ≤ 0 then "0." ++ zeros (-kk).toNat ++ ds
    else
      let exp := (if plus ∧ kk > 1 then "+" else "") ++ toString (kk - 1)
      if ds.length = 1 then ds ++ "e" ++ exp
      else String.ofList (ds.toList.take 1) ++ "." ++ String.ofList (ds.toList.drop 1) ++ "e" ++ exp
  sign ++ body

/-- The text of a finite double, with or without a plus sign before a positive exponent. -/
def finiteText (plus : Bool) (x : Float) : String :=
  let bits := x.toBits
  let negative := bits.toNat ≥ 2 ^ 63
  if bits.toNat % 2 ^ 63 = 0 then (if negative then "-0.0" else "0.0")
  else
    let (c, E) := Shortest.digits bits
    layoutDecimal plus negative c E

/-- The text of a double: shortest digits that read back, `null` when not finite. -/
def floatText (x : Float) : String :=
  if x.isNaN || x.isInf then "null" else finiteText false x

/-- A double as a decoding error names it: shortest digits, and a plus sign before a positive
exponent (`1e+16`, `1e-7`). -/
def floatWord (x : Float) : String :=
  if x.isNaN || x.isInf then "null" else finiteText true x

/-! ## Strings -/

/-- Hexadecimal digits, lower case. -/
def hexDigit (n : Nat) : Char := "0123456789abcdef".toList.getD n '0'

/-- Bytes as lower-case hexadecimal text, two digits a byte. -/
def hexText (bs : List UInt8) : String :=
  String.join (bs.map fun b => String.ofList [hexDigit (b.toNat / 16), hexDigit (b.toNat % 16)])

/-- One character as it stands inside a quoted string. -/
def escapeChar (c : Char) : String :=
  if c = '"' then "\\\""
  else if c = '\\' then "\\\\"
  else if c = '\n' then "\\n"
  else if c = '\r' then "\\r"
  else if c = '\t' then "\\t"
  else if c.toNat = 8 then "\\b"
  else if c.toNat = 12 then "\\f"
  else if c.toNat < 32 then
    String.ofList ['\\', 'u', '0', '0', hexDigit (c.toNat / 16), hexDigit (c.toNat % 16)]
  else c.toString

/-- A string in quotes. -/
def quote (s : String) : String :=
  "\"" ++ String.join (s.toList.map escapeChar) ++ "\""

/-! ## Values -/

mutual

/-- The compact text of a value. -/
def render : Json → String
  | null => "null"
  | bool b => if b then "true" else "false"
  | int n => toString n
  | float x => floatText x
  | str s => quote s
  | arr xs => "[" ++ renderItems xs ++ "]"
  | obj fs => "\x7b" ++ renderFields fs ++ "\x7d"

/-- Items of an array, comma separated. -/
def renderItems : List Json → String
  | [] => ""
  | [x] => render x
  | x :: xs => render x ++ "," ++ renderItems xs

/-- Fields of an object, comma separated. -/
def renderFields : List (String × Json) → String
  | [] => ""
  | [(k, v)] => quote k ++ ":" ++ render v
  | (k, v) :: fs => quote k ++ ":" ++ render v ++ "," ++ renderFields fs

end

end Json

end SeriesStore
