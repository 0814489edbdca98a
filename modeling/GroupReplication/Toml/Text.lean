/-
Quoted texts. Double quotes know escapes, single quotes do not; three quotes of either kind
hold a text of several lines.
-/
import GroupReplication.Toml.Reader

namespace GroupReplication.Toml.Reader

def hexDigit? (c : Char) : Option Nat :=
  if isDigit c then some (c.toNat - '0'.toNat)
  else if 'a' ≤ c && c ≤ 'f' then some (c.toNat - 'a'.toNat + 10)
  else if 'A' ≤ c && c ≤ 'F' then some (c.toNat - 'A'.toNat + 10)
  else none

/-- A number of exactly `width` hexadecimal digits. -/
def hexNumber : (width : Nat) → (high : Nat) → Reader Nat
  | 0, n => return n
  | width + 1, n => do
    let d ← StateT.lift (hexDigit? (← next))
    hexNumber width (16 * n + d)

/-- The character with a given number; surrogates have none. -/
def charOf? (n : Nat) : Option Char :=
  if n.isValidChar then some (Char.ofNat n) else none

/-- What stands behind a backslash. -/
def escape : Reader Char := do
  match ← next with
  | 'b' => return '\x08'
  | 't' => return '\t'
  | 'n' => return '\n'
  | 'f' => return '\x0c'
  | 'r' => return '\r'
  | '"' => return '"'
  | '\\' => return '\\'
  | 'u' => StateT.lift (charOf? (← hexNumber 4 0))
  | 'U' => StateT.lift (charOf? (← hexNumber 8 0))
  | _ => failure

/-- A text in one line, behind its first quote. -/
def lineText (quote : Char) : Reader String := do
  let cs ← many do
    let c ← next
    if c = quote then return none
    else if c = '\\' && quote = '"' then return some (← escape)
    else
      guard (isPlain c)
      return some c
  return String.ofList cs

/-- A backslash at the end of a line takes away all space up to the next character. -/
def continuation? : Reader Bool := do
  let ended ← optional do
    blanks
    guard (← newline?)
  if ended.isSome then
    discard (many do if ← newline? then return some () else
      return if (← takeWhile isBlank).isEmpty then none else some ())
  return ended.isSome

/-- One piece of a text of several lines, or none where three quotes end it. -/
def piece (quote : Char) : Reader (Option (List Char)) := do
  if ← newline? then
    return some ['\n']
  let quotes := (← get).takeWhile (· = quote)
  if 3 ≤ quotes.length then
    return none
  let c ← next
  if c = '\\' && quote = '"' then
    if ← continuation? then return some [] else return some [← escape]
  guard (isPlain c)
  return some [c]

/-- A text of several lines, behind its first three quotes. A line end right there does not
count, and up to two of the quotes at its end belong to it. -/
def linesText (quote : Char) : Reader String := do
  discard newline?
  let pieces ← many (piece quote)
  let quotes ← takeWhile (· = quote)
  guard (3 ≤ quotes.length && quotes.length ≤ 5)
  return String.ofList (pieces.flatten ++ quotes.drop 3)

/-- A quoted text of one line, as it can also stand in a key. -/
def quoted (quote : Char) : Reader String := do
  expect quote
  lineText quote

def text (quote : Char) : Reader String := do
  if ← literal? (String.ofList [quote, quote, quote]) then linesText quote else quoted quote

end GroupReplication.Toml.Reader
