import SeriesStore.Prelude

/-!
# JSON values

The documents of the store and the answers of its operations are JSON values. A number is
either an integer (in the range of a signed or an unsigned 64-bit word) or a double; the two
are kept apart because they are written apart (`1` and `1.0`). An object keeps its fields in
the order they were set; setting a field that is there replaces it in place.
-/

namespace SeriesStore

/-- A JSON value. -/
inductive Json where
  | null
  | bool (b : Bool)
  | int (n : Int)
  | float (x : Float)
  | str (s : String)
  | arr (items : List Json)
  | obj (fields : List (String × Json))
  deriving Inhabited

namespace Json

/-- The field `k` of an object. -/
def get? (j : Json) (k : String) : Option Json :=
  match j with
  | obj fs => fs.lookup k
  | _ => none

/-- Set a field of a list of fields, in place if it is there, else at the end. -/
def setField (fs : List (String × Json)) (k : String) (v : Json) : List (String × Json) :=
  if fs.any (·.1 == k) then fs.map fun (k', v') => if k' == k then (k', v) else (k', v')
  else fs ++ [(k, v)]

/-- Remove a field from a list of fields. -/
def eraseField (fs : List (String × Json)) (k : String) : List (String × Json) :=
  fs.filter (·.1 != k)

/-- The text, if the value is a string. -/
def asString? : Json → Option String
  | str s => some s
  | _ => none

/-- The items, if the value is an array. -/
def asArray? : Json → Option (List Json)
  | arr xs => some xs
  | _ => none

/-- The fields, if the value is an object. -/
def asObject? : Json → Option (List (String × Json))
  | obj fs => some fs
  | _ => none

/-- Whether the value is an object. -/
def isObject : Json → Bool
  | obj _ => true
  | _ => false

end Json

end SeriesStore
