/-
Paths of directories: parts between slashes, where an empty part and "." stay in place and ".."
leads one level up. All other parts are names.
-/
import GroupReplication.Error

namespace GroupReplication.Path

/-- A path followed from `base`; one that starts at the root leads to the same place from
everywhere. -/
def join (base path : String) : String :=
  if path.startsWith "/" then path
  else if base.endsWith "/" then base ++ path
  else base ++ "/" ++ path

/-- The names and the steps upwards. -/
def parts (path : String) : List String :=
  (path.splitOn "/").filter fun part => part ≠ "" && part ≠ "."

/-- The name in which the path ends; one that ends with a step upwards is named as a whole. -/
def name (path : String) : String :=
  match (parts path).getLast? with
  | none | some ".." => path
  | some last => last

/-- Where parts lead: the names down to it, the last one first. -/
def place (parts : List String) : List String :=
  parts.foldl (fun here part => if part = ".." then here.tail else part :: here) []

/-- The path comes to where it ends already on its way there. -/
def returns (path : String) : Bool :=
  let steps := parts path
  (List.range steps.length).any fun n => place (steps.take n) = place steps

/-- The path says at its end that it stays in place. -/
def endsInPlace (path : String) : Bool :=
  ((path.splitOn "/").filter (· ≠ "")).getLast? = some "."

/-- Why no directory can be made at a path where none stands. A path has no NUL and at most 4095
bytes, a name at most 255. The directories above the last name are made first; a path that then
stays in place calls for one that is not there yet, unless the way to it led through it. -/
def obstacle? (path : String) : Option IoFailure :=
  if path.contains '\x00' then some (.other "InvalidInput")
  else if 4095 < path.utf8ByteSize || (parts path).any (255 < ·.utf8ByteSize) then
    some (.other "InvalidFilename")
  else if endsInPlace path && !returns path then some .notFound
  else none

end GroupReplication.Path
