/-
Numbers, dates and times of day. A number may have single underscores between its digits; an
integer has to fit 64 bits.
-/
import GroupReplication.Toml.Node
import GroupReplication.Toml.Text

namespace GroupReplication.Toml.Reader

/-- One or more digits of a class, the value of which is read in `base`. -/
def digits (base : Nat) : Reader (List Nat) := do
  let digit? (c : Char) : Option Nat := (hexDigit? c).filter (· < base)
  let first ← StateT.lift (digit? (← next))
  let rest ← many do
    let joined ← take? '_'
    match (← peek?).bind digit? with
    | some d =>
      discard next
      return some d
    | none =>
      guard !joined
      return none
  return first :: rest

def valueOf (base : Nat) (ds : List Nat) : Nat := ds.foldl (fun n d => base * n + d) 0

def sign : Reader Bool := do
  if ← take? '-' then return true
  discard (take? '+')
  return false

/-- Whether `m * 10 ^ e`, rounded to a float of 64 bits, is still finite. -/
def isFinite (m : Nat) (e : Int) : Bool :=
  let limit := 2 ^ 1024 - 2 ^ 970
  let places := (Nat.toDigits 10 m).length + e
  if m = 0 || places < 300 then true
  else if 310 < places then false
  else if 0 ≤ e then m * 10 ^ e.toNat < limit
  else m < limit * 10 ^ (-e).toNat

def inRange (n : Int) : Bool := -2 ^ 63 ≤ n && n < 2 ^ 63

/-- The power of ten behind a decimal number, if there is one. -/
def exponent? : Reader (Option Int) := do
  if ['e', 'E'].any (some · = (← peek?)) then
    discard next
    let negative ← sign
    let n := valueOf 10 (← digits 10)
    return some (if negative then -n else n)
  else
    return none

/-- The digits behind a decimal point, if there is one. -/
def fraction? : Reader (Option (List Nat)) := do
  if ← take? '.' then return some (← digits 10) else return none

/-- A decimal number has no leading zero. -/
def decimal : Reader Node := do
  let negative ← sign
  if ← literal? "inf" then
    return .float
  if ← literal? "nan" then
    return .float
  let whole ← digits 10
  guard (whole.length = 1 || whole.head? ≠ some 0)
  match ← fraction?, ← exponent? with
  | none, none =>
    let n : Int := valueOf 10 whole
    let n := if negative then -n else n
    guard (inRange n)
    return .integer n
  | fraction, exponent =>
    let places := fraction.getD []
    let e := exponent.getD 0 - places.length
    guard (negative || isFinite (valueOf 10 (whole ++ places)) e)
    return .float

def number : Reader Node := do
  let inBase (base : Nat) : Reader Node := do
    let n := valueOf base (← digits base)
    guard (inRange n)
    return .integer n
  if ← literal? "0x" then inBase 16
  else if ← literal? "0o" then inBase 8
  else if ← literal? "0b" then inBase 2
  else decimal

/-- A number of exactly `width` digits between `least` and `most`. -/
def fixed (width least most : Nat) : Reader Nat := fun cs =>
  let ds := cs.take width
  if ds.length = width && ds.all isDigit then
    let n := valueOf 10 (ds.filterMap hexDigit?)
    if least ≤ n && n ≤ most then some (n, cs.drop width) else none
  else none

def daysIn (year month : Nat) : Nat :=
  match month with
  | 2 => if year % 4 = 0 && (year % 100 ≠ 0 || year % 400 = 0) then 29 else 28
  | 4 | 6 | 9 | 11 => 30
  | _ => 31

def date : Reader Unit := do
  let year ← fixed 4 0 9999
  expect '-'
  let month ← fixed 2 1 12
  expect '-'
  discard (fixed 2 1 (daysIn year month))

/-- A time of day; a minute may have a leap second. -/
def time : Reader Unit := do
  discard (fixed 2 0 23)
  expect ':'
  discard (fixed 2 0 59)
  expect ':'
  discard (fixed 2 0 60)
  discard <| optional do
    expect '.'
    guard !(← takeWhile isDigit).isEmpty

/-- How far a time is ahead of the time at the prime meridian. -/
def timeOffset : Reader Unit := do
  match ← next with
  | 'Z' | 'z' => return ()
  | '+' | '-' =>
    discard (fixed 2 0 23)
    expect ':'
    discard (fixed 2 0 59)
  | _ => failure

def moment : Reader Unit := do
  if (← optional date).isSome then
    discard <| optional do
      guard (['T', 't', ' '].contains (← next))
      time
      discard (optional timeOffset)
  else
    time

end GroupReplication.Toml.Reader
