import SeriesStore.Prelude

/-!
# Failures of the store

Every operation of the library fails with an `Error`. Its constructor names the kind of
failure (a corrupt segment, a bad argument, a missing document, ...); the text it carries says
where and why. `Error.message` is the one place where a failure becomes text.

A `Fault` is a computation that has no answer at all: an arithmetic overflow or an index out of
range in the bookkeeping of the store, or a loop that makes no progress and never returns. It is
kept apart from the ordinary errors because a caller cannot act on it; the step that hit it is
abandoned as a whole.
-/

namespace SeriesStore

/-- A computation with no answer: the arithmetic or the indexing it needs is out of range, or
it repeats a step that changes nothing. -/
inductive Fault where
  /-- An integer left the range of its machine word. -/
  | overflow
  /-- A position past the end of a sequence was read. -/
  | outOfBounds
  /-- A loop took a step that changed nothing, so it would repeat it forever. -/
  | stuck
  deriving Repr, DecidableEq, Inhabited

/-- What went wrong, by kind. -/
inductive Error where
  | corruption (detail : String)
  | segmentTooLarge (size : Nat)
  | transaction (detail : String)
  | invalidValue (detail : String)
  | invalidArgument (detail : String)
  | notFound (detail : String)
  | invalidChangeVector (detail : String)
  | serialization (detail : String)
  | configuration (detail : String)
  | internal (detail : String)
  | cancelled
  | fault (cause : Fault)
  deriving Repr, DecidableEq, Inhabited

namespace Error

/-- The text of a failure: a phrase for its kind, then its detail. -/
def message : Error → String
  | corruption d => "corruption detected: " ++ d
  | segmentTooLarge n => "segment too large: " ++ toString n ++ " bytes"
  | transaction d => "transaction error: " ++ d
  | invalidValue d => "invalid value: " ++ d
  | invalidArgument d => "invalid argument: " ++ d
  | notFound d => "not found: " ++ d
  | invalidChangeVector d => "invalid change vector: " ++ d
  | serialization d => "serialization error: " ++ d
  | configuration d => "configuration error: " ++ d
  | internal d => "internal error: " ++ d
  | cancelled => "operation cancelled"
  | fault .overflow => "arithmetic overflow"
  | fault .outOfBounds => "index out of bounds"
  | fault .stuck => "no progress"

end Error

/-- Results of the library's operations. -/
abbrev Outcome (α : Type) := Except Error α

end SeriesStore
