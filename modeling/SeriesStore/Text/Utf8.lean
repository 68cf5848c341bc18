import SeriesStore.Prelude

/-!
# Reading bytes as UTF-8, replacing what is not

`Text.ofUtf8Lossy` reads a byte string as UTF-8 text. Each maximal run of bytes that starts a
sequence and cannot be completed becomes one replacement character `U+FFFD`: a byte that
cannot start a sequence, or a lead byte followed by fewer continuation bytes, in the ranges its
position allows, than it needs.
-/

namespace SeriesStore

namespace Text

/-- The replacement character. -/
def replacement : Char := Char.ofNat 0xFFFD

/-- Whether a byte continues a sequence. -/
def isContinuation (b : UInt8) : Bool := 0x80 ≤ b && b ≤ 0xBF

/-- The range the second byte of a sequence must lie in, given its lead byte, and the length of
the sequence; `none` for a byte that cannot lead one. -/
def leadShape (b : UInt8) : Option (UInt8 × UInt8 × Nat) :=
  if 0xC2 ≤ b && b ≤ 0xDF then some (0x80, 0xBF, 2)
  else if b == 0xE0 then some (0xA0, 0xBF, 3)
  else if 0xE1 ≤ b && b ≤ 0xEC then some (0x80, 0xBF, 3)
  else if b == 0xED then some (0x80, 0x9F, 3)
  else if 0xEE ≤ b && b ≤ 0xEF then some (0x80, 0xBF, 3)
  else if b == 0xF0 then some (0x90, 0xBF, 4)
  else if 0xF1 ≤ b && b ≤ 0xF3 then some (0x80, 0xBF, 4)
  else if b == 0xF4 then some (0x80, 0x8F, 4)
  else none

/-- How many bytes after a lead byte belong to its sequence as far as it goes: the second byte
in its range, then continuation bytes, up to the length of the sequence. -/
def sequenceRun (lo hi : UInt8) (len : Nat) (rest : List UInt8) : Nat :=
  match rest with
  | b :: more =>
    if lo ≤ b && b ≤ hi then 1 + ((more.take (len - 2)).takeWhile isContinuation).length else 0
  | [] => 0

/-- The code point of a complete sequence. -/
def codePoint (lead : UInt8) (len : Nat) (cont : List UInt8) : Nat :=
  let first := match len with
    | 2 => lead.toNat % 32
    | 3 => lead.toNat % 16
    | _ => lead.toNat % 8
  cont.foldl (fun acc b => acc * 64 + b.toNat % 64) first

/-- What is left after a lead byte and some bytes of its run is shorter than the whole. -/
theorem length_drop_lt_cons (b : UInt8) (rest : List UInt8) (n : Nat) :
    (rest.drop n).length < (b :: rest).length := by
  rw [List.length_drop, List.length_cons]
  omega

/-- The characters of a byte string, invalid runs replaced. -/
def lossyChars (bs : List UInt8) : List Char :=
  match bs with
  | [] => []
  | b :: rest =>
    if b < 0x80 then Char.ofNat b.toNat :: lossyChars rest
    else
      match leadShape b with
      | none => replacement :: lossyChars rest
      | some (lo, hi, len) =>
        let n := sequenceRun lo hi len rest
        if n + 1 = len then Char.ofNat (codePoint b len (rest.take n)) :: lossyChars (rest.drop n)
        else replacement :: lossyChars (rest.drop n)
termination_by bs.length
decreasing_by all_goals first | exact length_drop_lt_cons _ _ 0 | exact length_drop_lt_cons _ _ _

/-- A byte string read as UTF-8, each invalid run replaced by `U+FFFD`. -/
def ofUtf8Lossy (bs : List UInt8) : String := String.ofList (lossyChars bs)

end Text

end SeriesStore
