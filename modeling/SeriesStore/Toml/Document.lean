import SeriesStore.Text.Escape

/-!
# TOML documents

A TOML document is a table of items. An item is a value written inline (a string, an
integer, a float, a boolean, a date-time, an array or an inline table), a table opened by a
header or implied by a longer one, or an array of tables.

Every item remembers the bytes of the text it came from, for failures that point at it: a value
its own text, a table opened by a header the header and its key-value pairs, an inline table its
braces. A table only implied by another (`[a.b]` implies `a`) and an array of tables have no
span of their own; a failure in them points at the key that named them.
-/

namespace SeriesStore

namespace Toml

/-- A range of byte offsets of the source text. -/
structure Range where
  start : Nat
  stop : Nat
  deriving Repr, DecidableEq, Inhabited

/-- A key as written: its value, its text in the source and where that text is. -/
structure Name where
  text : String
  raw : String
  span : Option Range := none
  deriving Repr, Inhabited

/-- How a table came to be. -/
structure TableForm where
  /-- Written between braces. -/
  inline : Bool := false
  /-- Implied by a longer header or key, not opened itself. -/
  implicit : Bool := false
  /-- Made by a dotted key. -/
  dotted : Bool := false
  deriving Repr, Inhabited

/-- A value that is not a container. -/
inductive Scalar where
  | str (s : String)
  | int (n : Int)
  | float (x : Float)
  | bool (b : Bool)
  | datetime (text : String)
  deriving Inhabited

/-- An item of a document. -/
inductive Item where
  | scalar (v : Scalar) (span : Range)
  | array (items : List Item) (span : Range)
  | table (entries : List (Name × Item)) (span : Option Range) (form : TableForm)
  | tables (items : List Item) (span : Option Range)
  deriving Inhabited

namespace Item

/-- Where the item's text is, if it has a span. -/
def span? : Item → Option Range
  | .scalar _ s => some s
  | .array _ s => some s
  | .table _ s _ => s
  | .tables _ s => s

/-- The name of a value's type, as failures name it. -/
def typeName : Item → String
  | .scalar (.str _) _ => "string"
  | .scalar (.int _) _ => "integer"
  | .scalar (.float _) _ => "float"
  | .scalar (.bool _) _ => "boolean"
  | .scalar (.datetime _) _ => "datetime"
  | .array _ _ => "array"
  | .table _ _ f => if f.inline then "inline table" else "table"
  | .tables _ _ => "array of tables"

/-- An empty table of a form. -/
def emptyTable (form : TableForm) : Item := .table [] none form

end Item

end Toml

end SeriesStore
