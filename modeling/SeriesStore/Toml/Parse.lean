import SeriesStore.Toml.Lexical

/-!
# Reading a TOML document

The grammar reads a document line by line: comments, blank lines, table headers (`[a.b]`),
headers of arrays of tables (`[[a.b]]`) and key-value pairs. A `Builder` gathers what is read
into the document's tables, and refuses what does not hold together (a `Problem`): a key given
twice, a table opened twice, or a dotted key that runs into a value.

The table being filled is kept apart from the document until the next header: a header first
puts the table before it in place (`Builder.finalize`), then takes out of the document the table
it names, if that table was only implied so far. A table therefore ends up after the tables
opened before it. A table's span is its header, stretched to the end of each value written in it.

Values nest at most 79 deep: the eightieth array or inline table inside one value is refused.
-/

namespace SeriesStore

namespace Toml

open Grammar

/-- What makes a document that reads fail to hold together. -/
inductive Problem where
  /-- A key given twice; the table it was given in, when known. -/
  | duplicateKey (key : String) (table : Option (List String))
  /-- A dotted key whose prefix names a value that is not a table. -/
  | extendsValue (path : List String) (actual : String)
  deriving Inhabited

/-- The message of a problem. -/
def Problem.message : Problem → String
  | .duplicateKey k none => "duplicate key `" ++ k ++ "`"
  | .duplicateKey k (some []) => "duplicate key `" ++ k ++ "` in document root"
  | .duplicateKey k (some path) =>
    "duplicate key `" ++ k ++ "` in table `" ++ ".".intercalate path ++ "`"
  | .extendsValue path actual =>
    "dotted key `" ++ ".".intercalate path ++ "` attempted to extend non-table type (" ++
      actual ++ ")"

/-- A table being built. -/
structure Tab where
  entries : List (Name × Item) := []
  span : Option Range := none
  form : TableForm := {}
  deriving Inhabited

namespace Tab

/-- The table as an item. -/
def toItem (t : Tab) : Item := .table t.entries t.span t.form

/-- The item under a key. -/
def find? (t : Tab) (k : String) : Option Item := (t.entries.find? (·.1.text == k)).map (·.2)

/-- A new entry, last. -/
def push (t : Tab) (k : Name) (v : Item) : Tab := { t with entries := t.entries ++ [(k, v)] }

/-- The item under a key replaced, in its place. -/
def replace (t : Tab) (k : String) (v : Item) : Tab :=
  { t with entries := t.entries.map fun (n, w) => if n.text == k then (n, v) else (n, w) }

/-- The entry of a key removed. -/
def remove (t : Tab) (k : String) : Tab := { t with entries := t.entries.filter (·.1.text != k) }

/-- The span from the first of some tables to the last, when both have one. -/
def spanOf (items : List Item) : Option Range :=
  match items.head?.bind Item.span?, items.getLast?.bind Item.span? with
  | some a, some b => some ⟨a.start, b.stop⟩
  | _, _ => none

/-- Apply `f` to the table at a path of a document, made as implicit tables where missing
(`dotted` marks them made by a dotted key). The last table of an array of tables stands for
the array. A value on the way is refused, and so, for a dotted key, is a table opened by a
header or written inline. `seen` is the path walked so far. -/
def atPath {β : Type} (dotted : Bool) (f : Tab → Except Problem (Tab × β)) :
    List Name → List String → Tab → Except Problem (Tab × β)
  | [], _, t => f t
  | k :: rest, seen, t =>
    let seen := seen ++ [k.text]
    let (t, child) := match t.find? k.text with
      | some item => (t, item)
      | none =>
        let item := Item.emptyTable { implicit := true, dotted := dotted }
        (t.push k item, item)
    match child with
    | .table es sp form =>
      if form.inline then .error (.extendsValue seen "inline table")
      else if dotted && !form.implicit then .error (.duplicateKey k.text none)
      else do
        let (c, r) ← atPath dotted f rest seen ⟨es, sp, form⟩
        pure (t.replace k.text c.toItem, r)
    | .tables items sp =>
      match items.getLast? with
      | some (.table es sp' form) => do
        let (c, r) ← atPath dotted f rest seen ⟨es, sp', form⟩
        pure (t.replace k.text (.tables (items.dropLast ++ [c.toItem]) sp), r)
      | _ => .error (.extendsValue seen "array of tables")
    | other => .error (.extendsValue seen other.typeName)

/-- Apply `f` to the table at a dotted path of an inline table, made as implicit tables where
missing; a table written inline on the way, or a value, is refused. -/
def atInlinePath {β : Type} (f : Tab → Except Problem (Tab × β)) :
    List Name → List String → Tab → Except Problem (Tab × β)
  | [], _, t => f t
  | k :: rest, seen, t =>
    let seen := seen ++ [k.text]
    let (t, child) := match t.find? k.text with
      | some item => (t, item)
      | none =>
        let item := Item.emptyTable { inline := true, implicit := true, dotted := true }
        (t.push k item, item)
    match child with
    | .table es sp form =>
      if !form.implicit then .error (.duplicateKey k.text none)
      else do
        let (c, r) ← atInlinePath f rest seen ⟨es, sp, form⟩
        pure (t.replace k.text c.toItem, r)
    | other => .error (.extendsValue seen other.typeName)

end Tab

/-- The inline table of the pairs read between braces. -/
def tableOfPairs (pairs : List (List Name × Name × Item)) : Except Problem Tab :=
  pairs.foldlM (fun root (path, k, v) => do
    let (root, _) ← root.atInlinePath (fun t =>
      if t.form.dotted == path.isEmpty then .error (.duplicateKey k.text none)
      else if (t.find? k.text).isSome then .error (.duplicateKey k.text none)
      else .ok (t.push k v, ())) path []
    pure root) { form := { inline := true } }

/-- A document being read: its tables so far, and the table being filled with its path and
whether it is an element of an array of tables. -/
structure Builder where
  root : Tab := {}
  current : Tab := {}
  path : List Name := []
  isArray : Bool := false
  deriving Inhabited

namespace Builder

/-- The last part of a path and the parts before it. -/
def splitLast (path : List Name) : Option (List Name × Name) :=
  match path.reverse with
  | [] => none
  | k :: rest => some (rest.reverse, k)

/-- A key found where a table header wants to put its table. -/
def headerClash (parents : List Name) (k : Name) : Problem :=
  .duplicateKey k.raw (some (parents.map (·.text)))

/-- The document with the table being filled put in place. -/
def finalize (b : Builder) : Except Problem Tab :=
  match splitLast b.path with
  | none => .ok b.current
  | some (parents, k) => do
    let clash := headerClash parents k
    let (root, _) ← b.root.atPath false (fun parent =>
      if b.isArray then
        match parent.find? k.text with
        | none => .ok (parent.push k (.tables [b.current.toItem] b.current.span), ())
        | some (.tables items _) =>
          let items := items ++ [b.current.toItem]
          .ok (parent.replace k.text (.tables items (Tab.spanOf items)), ())
        | some _ => .error clash
      else
        match parent.find? k.text with
        | none => .ok (parent.push k b.current.toItem, ())
        | some (.table _ _ form) =>
          if form.implicit && !form.inline then .ok (parent.replace k.text b.current.toItem, ())
          else .error clash
        | some _ => .error clash) parents [] 
    pure root

/-- Open the table a header `[path]` names; `span` is the header's. A table only implied so far
is taken out of the document to be filled. -/
def openTable (b : Builder) (path : List Name) (span : Range) : Except Problem Builder := do
  let root ← b.finalize
  match splitLast path with
  | none => pure { b with root, current := {}, path := [] }
  | some (parents, k) =>
    let clash := headerClash parents k
    let (root, taken) ← root.atPath false (fun parent =>
      match parent.find? k.text with
      | none => .ok (parent, none)
      | some (.table es sp form) =>
        if form.implicit && !form.dotted && !form.inline then
          .ok (parent.remove k.text, some (Tab.mk es sp form))
        else .error clash
      | some _ => .error clash) parents []
    let current := taken.getD {}
    pure { root, current := { current with span := some span, form := {} }, path, isArray := false }

/-- Open a new element of the array of tables a header `[[path]]` names. -/
def openArrayTable (b : Builder) (path : List Name) (span : Range) : Except Problem Builder := do
  let root ← b.finalize
  match splitLast path with
  | none => pure { b with root, current := {}, path := [] }
  | some (parents, k) =>
    let clash := headerClash parents k
    let (root, _) ← root.atPath false (fun parent =>
      match parent.find? k.text with
      | none => .ok (parent.push k (.tables [] none), ())
      | some (.tables _ _) => .ok (parent, ())
      | some _ => .error clash) parents []
    pure { root, current := { span := some span }, path, isArray := true }

/-- A key-value pair of the table being filled, its key split into the dotted path and the last
part. -/
def addPair (b : Builder) (path : List Name) (k : Name) (v : Item) : Except Problem Builder := do
  let current := match b.current.span, v.span? with
    | some s, some vs => { b.current with span := some ⟨s.start, vs.stop⟩ }
    | _, _ => b.current
  let (current, _) ← current.atPath true (fun t =>
    if t.form.dotted == path.isEmpty then .error (.duplicateKey k.text none)
    else if (t.find? k.text).isSome then .error (.duplicateKey k.text (some (b.path.map (·.text))))
    else .ok (t.push k v, ())) path []
  pure { b with current }

end Builder

/-! ## Values -/

/-- A key-value pair: the key's parts before the last, the last, and the value read by `val`;
`trailing` is what must follow the value. -/
def keyval (val : Grammar Item) (trailing : Grammar Unit) :
    Grammar (List Name × Name × Item) := do
  let path ← key
  commit do
    expecting "`=`" (expecting "`.`" (byte '='))
    ws
    let v ← val
    trailing
    match Builder.splitLast path with
    | some (parents, k) => pure (parents, k, v)
    | none => failHere

/-- A scalar read from `start` to here. -/
def scalarFrom (start : Nat) (v : Scalar) : Grammar Item := do
  pure (.scalar v ⟨start, ← offset⟩)

/-- An array, its items read by `item`. -/
def array (item : Grammar Item) : Grammar Item := do
  let start ← offset
  byte '['
  let items ← commit do
    let items ← optional do
      let vs ← sepBy1 (do wsCommentNewline; let v ← item; wsCommentNewline; pure v) (byte ',')
      discard (optional (byte ','))
      pure vs
    wsCommentNewline
    pure (items.getD [])
  expecting "`]`" (label "array" (commit (byte ']')))
  pure (.array items ⟨start, ← offset⟩)

/-- An inline table, its values read by `item`. -/
def inlineTable (item : Grammar Item) : Grammar Item := do
  let start ← offset
  byte '\x7b'
  let t ← commit (refine
    (do
      let pairs ← sepBy (keyval item ws) (byte ',')
      ws
      pure pairs)
    fun pairs => (tableOfPairs pairs).mapError Problem.message)
  expecting "`\x7d`" (label "inline table" (commit (byte '\x7d')))
  pure (.table t.entries (some ⟨start, ← offset⟩) t.form)

/-- A rule whose failure reads as a string not begun. -/
def asString {α : Type} (p : Grammar α) : Grammar α :=
  expecting "`'`" (expecting "`\"`" (label "string" p))

/-- A value; `room` is how many more arrays and inline tables may open around it. A bracket
beyond that fails where it stands. -/
def value (room : Nat) : Grammar Item := do
    let start ← offset
    match ← peekByte with
    | none => failHere
    | some b =>
      if b == 0x22 || b == 0x27 then do scalarFrom start (.str (← string))
      else if b == 0x5B then
        match _h : room with
        | r + 1 => array (value r)
        | 0 => commit (failBecause "recursion limit exceeded")
      else if b == 0x7B then
        match _h : room with
        | r + 1 => inlineTable (value r)
        | 0 => commit (failBecause "recursion limit exceeded")
      else if isSign b || isDigit b then
        orElse (do scalarFrom start (.datetime (← dateTime)))
          (orElse (do scalarFrom start (.float (← float)))
            (do scalarFrom start (.int (← integer))))
      else if b == 0x5F then expecting "leading digit" (do scalarFrom start (.int (← integer)))
      else if b == 0x2E then expecting "leading digit" (do scalarFrom start (.float (← float)))
      else if b == 0x74 then asString (do commit (literal "true"); scalarFrom start (.bool true))
      else if b == 0x66 then asString (do commit (literal "false"); scalarFrom start (.bool false))
      else if b == 0x69 then
        asString (do literal "inf"; scalarFrom start (.float (Decimal.toFloat false 1 400)))
      else if b == 0x6E then
        asString (do literal "nan"; scalarFrom start (.float (0.0 / 0.0)))
      else asString failHere
termination_by room
decreasing_by all_goals omega

/-- The nesting allowed a value of a key-value pair of a table: seventy-nine arrays and inline
tables, one inside the other; the eightieth is refused. -/
def nestingLimit : Nat := 79

/-! ## Documents -/

/-- The header of a table: `[key]`. -/
def stdHeader (b : Builder) : Grammar Builder := label "table header" do
  let start ← offset
  byte '['
  let path ← commit key
  expecting "`]`" (expecting "`.`" (commit (byte ']')))
  let stop ← offset
  expecting "`#`" (expecting "newline" (commit lineTrailing))
  match b.openTable path ⟨start, stop⟩ with
  | .ok b => pure b
  | .error e => throw (Failure.because start e.message)

/-- The header of an element of an array of tables: `[[key]]`. -/
def arrayHeader (b : Builder) : Grammar Builder := label "array table header" do
  let start ← offset
  literal "[["
  let path ← commit key
  expecting "`]]`" (expecting "`.`" (commit (literal "]]")))
  let stop ← offset
  expecting "`#`" (expecting "newline" (commit lineTrailing))
  match b.openArrayTable path ⟨start, stop⟩ with
  | .ok b => pure b
  | .error e => throw (Failure.because start e.message)

/-- A header of either kind. -/
def header (b : Builder) : Grammar Builder := label "table" do
  let src ← read
  let p ← offset
  if src.size < p + 2 then failHere
  else if src[p]? == some 0x5B && src[p + 1]? == some 0x5B then arrayHeader b
  else stdHeader b

/-- A key-value pair of the table being filled, on a line of its own. -/
def pairLine (b : Builder) : Grammar Builder := do
  let start ← offset
  let (path, k, v) ← keyval (value nestingLimit)
    (expecting "`#`" (expecting "newline" lineTrailing))
  match b.addPair path k v with
  | .ok b => pure b
  | .error e => throw (Failure.because start e.message)

/-- One item of a document and the blank space after it. -/
def documentItem (b : Builder) : Grammar Builder := do
  let b ← match ← peekByte with
    | none => failHere
    | some 0x23 => do commit (do comment; lineEnding); pure b
    | some 0x5B => commit (header b)
    | some 0x0A | some 0x0D => do newline; pure b
    | some _ => commit (pairLine b)
  ws
  pure b

/-- The items of a document, at most `fuel` of them. -/
def documentItems : Nat → Builder → Grammar Builder
  | 0, b => pure b
  | fuel + 1, b => do
    let before ← offset
    match ← optional (documentItem b) with
    | none => pure b
    | some b' => if (← offset) == before then pure b' else documentItems fuel b'

/-- A whole document, after an optional byte order mark. -/
def documentRule : Grammar Builder := do
  discard (optional (literal "\uFEFF"))
  ws
  let b ← documentItems ((← read).size + 1) {}
  eof
  pure b

/-- What went wrong reading a document: its text, or how it holds together. -/
inductive ParseError where
  | malformed (f : Failure)
  | holds (p : Problem)
  deriving Inhabited

/-- Read a TOML document: its root table. -/
def parse (src : String) : Except ParseError Item :=
  match Grammar.run documentRule src.toUTF8 with
  | .error f => .error (.malformed f)
  | .ok b =>
    match b.finalize with
    | .ok root => .ok root.toItem
    | .error p => .error (.holds p)

end Toml

end SeriesStore
