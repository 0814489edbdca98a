/-
Reading a text from its front. A reader that fails says nothing of the place: a document is
read as a whole or not at all.
-/
import GroupReplication.Bytes

namespace GroupReplication.Toml

abbrev Reader := StateT (List Char) Option

namespace Reader

variable {α : Type}

def peek? : Reader (Option Char) := do return (← get).head?

def next : Reader Char := fun cs => cs.head?.map (·, cs.tail)

def expect (c : Char) : Reader Unit := do guard ((← next) = c)

/-- Takes the character if it comes next, and says whether it did. -/
def take? (c : Char) : Reader Bool := do
  if (← peek?) = some c then
    discard next
    return true
  else
    return false

/-- All characters of a class, up to the first that is not. -/
def takeWhile (p : Char → Bool) : Reader (List Char) := fun cs =>
  some (cs.takeWhile p, cs.dropWhile p)

/-- Takes a text if it comes next. -/
def literal? (text : String) : Reader Bool := fun cs =>
  let n := text.toList.length
  if cs.take n = text.toList then some (true, cs.drop n) else some (false, cs)

/-- Gives the text back if the reader fails. -/
def optional (r : Reader α) : Reader (Option α) := fun cs =>
  match r cs with
  | some (a, rest) => some (some a, rest)
  | none => some (none, cs)

/-- Repeats a reader until it answers none, at most `limit` times. -/
def repeatUpTo (r : Reader (Option α)) : (limit : Nat) → Reader (List α)
  | 0 => return []
  | limit + 1 => do
    match ← r with
    | some a => return a :: (← repeatUpTo r limit)
    | none => return []

/-- Repeats a reader until it answers none. Every answer takes a character, so the text is long
enough as a limit. -/
def many (r : Reader (Option α)) : Reader (List α) := do
  repeatUpTo r ((← get).length + 1)

end Reader

/-! Characters and space -/

def isBlank (c : Char) : Bool := c = ' ' || c = '\t'

/-- Everything that may stand in a comment: no control characters but the tab. -/
def isPlain (c : Char) : Bool := c = '\t' || (' ' ≤ c && c ≠ '\x7f')

def isDigit (c : Char) : Bool := '0' ≤ c && c ≤ '9'

namespace Reader

def blanks : Reader Unit := discard (takeWhile isBlank)

/-- The end of a line, if the line ends here. -/
def newline? : Reader Bool := do
  if ← take? '\n' then return true else literal? "\r\n"

def comment? : Reader Bool := do
  if ← take? '#' then
    discard (takeWhile isPlain)
    return true
  else
    return false

/-- The rest of a line that holds nothing more. -/
def lineEnd : Reader Unit := do
  blanks
  discard comment?
  unless (← get).isEmpty do
    guard (← newline?)

/-- Blanks, line ends, and comments that a line end closes. -/
def space : Reader Unit := do
  discard <| many do
    blanks
    if ← comment? then
      guard (← newline?)
      return some ()
    else if ← newline? then
      return some ()
    else
      return none

end Reader

end GroupReplication.Toml
