/-
The values of a TOML document. A table remembers how it came about, because that decides which
later lines may still add to it.
-/
import GroupReplication.Table

namespace GroupReplication.Toml

inductive Origin where
  /-- Named by a header of its own; the document itself counts as one. -/
  | header
  /-- Needed by the header of a table inside it. -/
  | implied
  /-- Needed by a dotted key. -/
  | dotted
  /-- Written as a value, in braces. -/
  | inline
  deriving Repr, DecidableEq

inductive Node where
  | text (s : String)
  | integer (n : Int)
  /-- A date, a time of day, or both. -/
  | moment
  | float
  | boolean (b : Bool)
  | array (items : List Node)
  | table (origin : Origin) (rows : List (String × Node))
  /-- The elements of an array whose headers stand in double brackets. -/
  | elements (tables : List (List (String × Node)))

abbrev Rows := Table String Node

namespace Rows

/-- Changes the rows of the table at the end of a path, and makes the tables on the way that are
missing. A path in a `dotted` key does not enter a table that has a header, and no path enters
a value in braces. -/
def update (dotted : Bool) (change : Origin → Rows → Option Rows) :
    (path : List String) → Origin → Rows → Option Rows
  | [], origin, rows => change origin rows
  | key :: path, _, rows => do
    let enter (origin : Origin) (inner : Rows) : Option Node :=
      .table origin <$> update dotted change path origin inner
    let node ← match rows.get? key with
      | none => enter (if dotted then .dotted else .implied) []
      | some (.table .header inner) => if dotted then none else enter .header inner
      | some (.table .inline _) => none
      | some (.table origin inner) => enter origin inner
      | some (.elements tables) => do
        let last ← update dotted change path .header (← tables.getLast?)
        pure (.elements (tables.dropLast ++ [last]))
      | some _ => none
    return rows.insert key node

/-- Adds a row that must not be there yet. -/
def add (key : String) (node : Node) (rows : Rows) : Option Rows :=
  if (rows.get? key).isSome then none else some (rows.insert key node)

/-- Adds a row under a dotted key: only a table that came about by dotted keys takes it. -/
def addDotted (path : List String) (key : String) (node : Node) : Origin → Rows → Option Rows :=
  update true (fun origin rows =>
    if path.isEmpty || origin = .dotted then rows.add key node else none) path

/-- Gives a table its header, which it may have only once. -/
def declare (key : String) (rows : Rows) : Option Rows :=
  match rows.get? key with
  | none => some (rows.insert key (.table .header []))
  | some (.table .implied inner) => some (rows.insert key (.table .header inner))
  | some _ => none

/-- Starts the next element of an array of tables. -/
def extend (key : String) (rows : Rows) : Option Rows :=
  match rows.get? key with
  | none => some (rows.insert key (.elements [[]]))
  | some (.elements tables) => some (rows.insert key (.elements (tables ++ [[]])))
  | some _ => none

end Rows

end GroupReplication.Toml
