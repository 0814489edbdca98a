/-
A TOML document: lines that open a table, start the next element of an array of tables, or add
a row to the table that was opened last. Reading fails on any text that is no document.
-/
import GroupReplication.Toml.Number

namespace GroupReplication.Toml

/-- How deep values may lie in one another, and how many parts a key may have. -/
def depthLimit : Nat := 79

namespace Reader

def isBare (c : Char) : Bool := c.isAlphanum || c = '-' || c = '_'

def keyPart : Reader String := do
  match ← peek? with
  | some '"' => quoted '"'
  | some '\'' => quoted '\''
  | _ =>
    let cs ← takeWhile isBare
    guard !cs.isEmpty
    return String.ofList cs

/-- A key with dots between its parts, as the path in front of the last part, and that. -/
def key : Reader (List String × String) := do
  let part : Reader String := do
    blanks
    let s ← keyPart
    blanks
    return s
  let first ← part
  let parts := first :: (← many do if ← take? '.' then some <$> part else return none)
  guard (parts.length ≤ depthLimit)
  return (parts.dropLast, parts.getLastD first)

/-- A value without parts. -/
def scalar : Reader Node := do
  match ← peek? with
  | some '"' => .text <$> text '"'
  | some '\'' => .text <$> text '\''
  | _ =>
    if ← literal? "true" then return .boolean true
    else if ← literal? "false" then return .boolean false
    else if (← optional moment).isSome then return .moment
    else number

/-- An array goes over line ends, and may have a comma behind its last item. -/
def array (item : Reader Node) : Reader Node := do
  expect '['
  space
  let items ← many do
    if (← peek?) = some ']' then
      return none
    let x ← item
    space
    if ← take? ',' then space else guard ((← peek?) = some ']')
    return some x
  expect ']'
  return .array items

def assignment (item : Reader Node) : Reader ((List String × String) × Node) := do
  let k ← key
  expect '='
  blanks
  let x ← item
  blanks
  return (k, x)

/-- A table in braces has to stand in one line. -/
def inlineTable (item : Reader Node) : Reader Node := do
  expect '{'
  blanks
  if ← take? '}' then
    return .table .inline []
  let first ← assignment item
  let rest ← many do if ← take? ',' then some <$> assignment item else return none
  expect '}'
  let rows ← StateT.lift <| (first :: rest).foldlM
    (fun rows (k, x) => Rows.addDotted k.1 k.2 x .inline rows) []
  return .table .inline rows

/-- A value that lies at most `depth` deep. -/
def value : (depth : Nat) → Reader Node
  | 0 => scalar
  | depth + 1 => do
    match ← peek? with
    | some '[' => array (value depth)
    | some '{' => inlineTable (value depth)
    | _ => scalar

end Reader

inductive Line where
  | table (path : List String) (key : String)
  | element (path : List String) (key : String)
  | row (path : List String) (key : String) (node : Node)

namespace Reader

def header : Reader Line := do
  if ← literal? "[[" then
    let k ← key
    guard (← literal? "]]")
    return .element k.1 k.2
  else
    expect '['
    let k ← key
    expect ']'
    return .table k.1 k.2

/-- One line, which may be blank. -/
def line : Reader (Option Line) := do
  blanks
  let content ← match ← peek? with
    | none | some '#' | some '\n' | some '\r' => pure none
    | some '[' => some <$> header
    | some _ => do
      let (k, x) ← assignment (value depthLimit)
      pure (some (.row k.1 k.2 x))
  lineEnd
  return content

def lines : Reader (List Line) := do
  discard (take? '\uFEFF')
  let ls ← many do if (← get).isEmpty then return none else some <$> line
  return ls.filterMap id

end Reader

/-- The tables so far, and the path to the one that takes the next rows. -/
structure Draft where
  rows : Rows
  path : List String

namespace Draft

def take (d : Draft) : Line → Option Draft
  | .table path key => do
    let rows ← Rows.update false (fun _ => Rows.declare key) path .header d.rows
    return ⟨rows, path ++ [key]⟩
  | .element path key => do
    let rows ← Rows.update false (fun _ => Rows.extend key) path .header d.rows
    return ⟨rows, path ++ [key]⟩
  | .row path key node => do
    let rows ← Rows.update false (Rows.addDotted path key node) d.path .header d.rows
    return { d with rows }

end Draft

/-- Reads a whole document, which is a table. -/
def read (text : String) : Option Node := do
  let (ls, rest) ← Reader.lines.run text.toList
  guard rest.isEmpty
  let d ← ls.foldlM Draft.take ⟨[], []⟩
  return .table .header d.rows

end GroupReplication.Toml
