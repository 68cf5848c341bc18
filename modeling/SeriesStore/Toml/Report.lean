import SeriesStore.Toml.Parse

/-!
# Reporting failures in a TOML text

A failure, in reading a document or in reading typed values from it, is reported with the
place it concerns: the line and column of the place's start, the line itself, and carets
under the place, cut at the end of the line (one caret at least). Lines are counted from one.
A column counts characters, unless the place starts inside a character beyond ASCII: then it
counts the bytes since the start of the line.

A reading failure concerns the byte where reading stopped, or the end of the text. A failure
with no place (a document that does not hold together) is its message alone, with the keys
leading to it when they are known.
-/

namespace SeriesStore

namespace Toml

/-- A failure in a TOML text: its message, the range of the text it concerns if known, and the
keys that lead to it. -/
structure Located where
  message : String
  span : Option Range
  keys : List String
  deriving Inhabited

/-- A failure with no place yet. -/
def Located.unplaced (message : String) : Located := ⟨message, none, []⟩

/-- The failure to read a document, placed. -/
def ParseError.locate (src : String) : ParseError → Located
  | .malformed f =>
    let span : Range := if f.pos == src.utf8ByteSize then ⟨f.pos, f.pos⟩ else ⟨f.pos, f.pos + 1⟩
    ⟨f.message, some span, []⟩
  | .holds p => Located.unplaced p.message

/-- The line and column, from zero, of a byte offset: past the end, the column runs on. -/
def position (src : ByteArray) (index : Nat) : Nat × Nat :=
  if src.size == 0 then (0, index)
  else
    let safe := min index (src.size - 1)
    let extra := index - safe
    let before := (src.extract 0 safe).toList
    let lineStart := match before.reverse.findIdx? (· == 10) with
      | some k => safe - k
      | none => 0
    let line := ((src.extract 0 lineStart).toList.filter (· == 10)).length
    let column := match String.fromUTF8? (src.extract lineStart (safe + 1)) with
      | some s => s.length - 1
      | none => safe - lineStart
    (line, column + extra)

/-- Spaces. -/
def spaces (n : Nat) : String := String.ofList (List.replicate n ' ')

/-- The report of a failure in a text. -/
def Located.render (src : String) (e : Located) : String :=
  match e.span with
  | some sp =>
    let (line, column) := position src.toUTF8 sp.start
    let lineNum := toString (line + 1)
    let content := (src.splitOn "\n").getD line ""
    let highlight := min (sp.stop - sp.start) (content.utf8ByteSize - column)
    let gutter := spaces (lineNum.length + 1)
    "TOML parse error at line " ++ lineNum ++ ", column " ++ toString (column + 1) ++ "\n" ++
      gutter ++ "|\n" ++
      lineNum ++ " | " ++ content ++ "\n" ++
      gutter ++ "|" ++ spaces (column + 1) ++ "^" ++ String.ofList (List.replicate (highlight - 1) '^') ++
      "\n" ++ e.message ++ "\n"
  | none =>
    e.message ++ "\n" ++ (if e.keys.isEmpty then "" else "in `" ++ ".".intercalate e.keys ++ "`\n")

end Toml

end SeriesStore
