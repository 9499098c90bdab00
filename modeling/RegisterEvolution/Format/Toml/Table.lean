import RegisterEvolution.Entries
import RegisterEvolution.Value

/-!
# `Format.Toml.Table` — tables built from the statements of a TOML document

A document is a sequence of statements: headers, which open a table or append one to an array of tables, and
assignments to dotted keys. No table is opened twice, no value is overwritten, and nothing is added to the tables and
arrays that are written as one value.

* `Builder.open?`, `Builder.append?`, `Builder.assign?` — the effect of one statement.
-/

namespace RegisterEvolution.Toml

/-- A dotted key. -/
abbrev Path := List String

/-- A table as the entries of a mapping. -/
abbrev Table := Entries Value Value

/-- The table inside the last element of an array of tables. -/
def lastTable? (tables : List Value) : Option Table :=
  match tables.getLast? with
  | some (.map entries) => some entries
  | _ => none

/-- Changes the table that `path` leads to; tables on the way that are missing are added. -/
def within (change : Table → Option Table) : Path → Table → Option Table
  | [], table => change table
  | key :: rest, table =>
    match table.get? (.text key) with
    | none => do
      let inner ← within change rest []
      return table.put (.text key) (.map inner)
    | some (.map entries) => do
      let inner ← within change rest entries
      return table.put (.text key) (.map inner)
    | some (.list tables) => do
      let inner ← within change rest (← lastTable? tables)
      return table.put (.text key) (.list (tables.dropLast ++ [.map inner]))
    | some _ => none

/-- A document under construction. -/
structure Builder where
  content : Table := []
  /-- The table that assignments go to. -/
  header : Path := []
  /-- How many headers there have been. -/
  headers : Nat := 0
  /-- Tables that must not be opened again, each with the header from which on that holds. -/
  settled : List (Path × Nat) := []
  /-- Values that nothing is added to. -/
  closed : List Path := []

namespace Builder

/-- Whether the table at `path` must not be opened any more. -/
def isSettled (b : Builder) (path : Path) : Bool :=
  b.settled.any fun (settledPath, since) => settledPath == path && since ≤ b.headers

/-- Whether `path` leads into a value. -/
def isClosed (b : Builder) (path : Path) : Bool := b.closed.any fun closedPath => closedPath.isPrefixOf path

/-- The document at the beginning of its next header. -/
def next (b : Builder) : Builder := { b with headers := b.headers + 1 }

/-- A header that opens the table at `path`. -/
def open? (b : Builder) (path : Path) : Option Builder := do
  let b := b.next
  if b.isSettled path || b.isClosed path then none
  else
    let content ← within some path b.content
    return { b with content := content, header := path, settled := (path, b.headers) :: b.settled }

/-- The table with another element at the end of the array of tables called `name`. -/
def appendTable (name : String) (table : Table) : Option Table :=
  match table.get? (.text name) with
  | none => some (table.put (.text name) (.list [.map []]))
  | some (.list tables) => some (table.put (.text name) (.list (tables ++ [.map []])))
  | some _ => none

/-- A header that appends to the array of tables at `path`. What was below the element before it is free again. -/
def append? (b : Builder) (path : Path) : Option Builder := do
  let b := b.next
  let name ← path.getLast?
  if b.isClosed path then none
  else
    let content ← within (appendTable name) path.dropLast b.content
    return { b with
      content := content
      header := path
      settled := (path, b.headers) :: b.settled.filter fun (settledPath, _) => !path.isPrefixOf settledPath
      closed := b.closed.filter fun closedPath => !path.isPrefixOf closedPath }

/-- The table with a value under a name that is not in use. -/
def insertNew (name : String) (v : Value) (table : Table) : Option Table :=
  if (table.get? (.text name)).isSome then none else some (table.put (.text name) v)

/-- Whether something could be added to a value. -/
def isContainer : Value → Bool
  | .list _ | .map _ => true
  | _ => false

/-- The tables that a dotted key names on its way, below the current header. -/
def between (b : Builder) (path : Path) : List Path :=
  (List.range (path.length - 1)).map fun i => b.header ++ path.take (i + 1)

/-- An assignment below the current header. -/
def assign? (b : Builder) (path : Path) (v : Value) : Option Builder := do
  let name ← path.getLast?
  let parent := b.header ++ path.dropLast
  if (b.between path).any b.isSettled || b.isClosed parent then none
  else
    let content ← within (insertNew name v) parent b.content
    return { b with
      content := content
      settled := (b.between path).map (fun passed => (passed, b.headers + 1)) ++ b.settled
      closed := if isContainer v then (b.header ++ path) :: b.closed else b.closed }

end Builder

end RegisterEvolution.Toml
