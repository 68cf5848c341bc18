import SeriesStore.Text.CaseData

/-!
# Lowercase and blanks

`Text.lower` maps every character to its full Unicode lowercase (one character, or `i` with a
combining dot for the dotted capital `I`). Capital sigma is the one character whose lowercase
depends on its place: it is the final `ς` when a cased character precedes it and none follows
it, case ignorable characters being passed over on both sides, and `σ` otherwise.

`Text.trim` drops the characters of the Unicode White_Space property from both ends.
-/

namespace SeriesStore

namespace Text

/-- Whether a code point lies in one of the ranges. -/
def inRanges (n : Nat) (rs : List (Nat × Nat)) : Bool := rs.any fun (a, b) => a ≤ n ∧ n ≤ b

/-- Whether a character is case ignorable. -/
def isCaseIgnorable (c : Char) : Bool := inRanges c.toNat caseIgnorableRanges

/-- Whether a character is cased (and not case ignorable). -/
def isCased (c : Char) : Bool := inRanges c.toNat casedRanges

/-- Capital sigma. -/
def capitalSigma : Char := 'Σ'

/-- The lowercase of a character other than capital sigma. -/
def lowerChar (c : Char) : List Char :=
  let n := c.toNat
  if n < 128 then [c.toLower]
  else if n = 0x130 then ['i', '̇']
  else
    match lowerRuns.find? fun r => r.first ≤ n ∧ n ≤ r.last ∧ (n - r.first) % r.step = 0 with
    | some r => [Char.ofNat (n + r.offset).toNat]
    | none => [c]

/-- Whether, passing over case ignorable characters, the first character met is cased. -/
def casedPastIgnorable (cs : List Char) : Bool :=
  match cs.dropWhile isCaseIgnorable with
  | c :: _ => isCased c
  | [] => false

/-- Lowercase a text whose characters before the current one are `before`, nearest first. -/
def lowerFrom : List Char → List Char → List Char
  | _, [] => []
  | before, c :: rest =>
    let here :=
      if c = capitalSigma then
        [if casedPastIgnorable before && !casedPastIgnorable rest then 'ς' else 'σ']
      else lowerChar c
    here ++ lowerFrom (c :: before) rest

/-- The full Unicode lowercase of a text. -/
def lower (s : String) : String := String.ofList (lowerFrom [] s.toList)

/-- Whether a character has the Unicode White_Space property. -/
def isBlank (c : Char) : Bool :=
  let n := c.toNat
  (9 ≤ n ∧ n ≤ 13) ∨ n = 32 ∨ n = 0x85 ∨ n = 0xA0 ∨ n = 0x1680 ∨ (0x2000 ≤ n ∧ n ≤ 0x200A) ∨
    n = 0x2028 ∨ n = 0x2029 ∨ n = 0x202F ∨ n = 0x205F ∨ n = 0x3000

/-- The text without White_Space characters at either end. -/
def trim (s : String) : String :=
  String.ofList ((s.toList.dropWhile isBlank).reverse.dropWhile isBlank).reverse

/-- Compare two texts by their lowercase. -/
def compareLower (a b : String) : Ordering := compare (lower a) (lower b)

end Text

end SeriesStore
