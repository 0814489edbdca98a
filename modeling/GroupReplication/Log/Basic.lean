/-
What every log of packets promises: keys without gaps, packets added at the end and removed at
the head, and a count and weight that can be asked for at any time.
-/
import GroupReplication.Action
import GroupReplication.Packet.Basic

namespace GroupReplication

/-- The closed range of keys that a compaction removed. -/
structure KeyRange where
  first : Nat
  last : Nat
  deriving Repr, DecidableEq

namespace KeyRange

def contains (r : KeyRange) (key : Nat) : Bool := r.first ≤ key && key ≤ r.last

/-- From the first to the last of some keys. -/
def spanning? (keys : List Nat) : Option KeyRange :=
  match keys.head?, keys.getLast? with
  | some first, some last => some ⟨first, last⟩
  | _, _ => none

end KeyRange

structure Compaction where
  range : Option KeyRange
  removed : Nat
  removedWeight : Nat
  remainingWeight : Nat
  deriving Repr, DecidableEq

/-- The count and weight that a log announces to whoever watches it. -/
structure LogSize where
  packets : Nat
  weight : Nat
  deriving Repr, DecidableEq

namespace LogSize

def isEmpty (s : LogSize) : Bool := s.packets == 0

end LogSize

namespace Log

/-- Fails at the first two neighbours that do not follow each other. -/
def checkContiguous : List Nat → Except SequenceFault Unit
  | a :: b :: keys =>
    if b ≤ a then .error (.notIncreasing b a)
    else if b ≠ a + 1 then .error (.gap a b)
    else checkContiguous (b :: keys)
  | _ => .ok ()

/-- Keys without gaps whose count and weight are the announced ones. -/
def checkSequence (keys weights : List Nat) (tracked : LogSize) : Except SequenceFault Unit := do
  checkContiguous keys
  if keys.length ≠ tracked.packets then
    throw (.size tracked.packets keys.length)
  let weight := weights.foldr (· + ·) 0
  if weight ≠ tracked.weight then
    throw (.weight tracked.weight weight)

/-- New keys have to follow `last`; only a log that never held a packet lets them start
anywhere. -/
def checkAppend : (last : Option Nat) → List Nat → Except Error Unit
  | _, [] => .ok ()
  | none, key :: keys => checkAppend (some key) keys
  | some last, key :: keys =>
    if key = last + 1 then checkAppend (some key) keys
    else .error (.storage (.outOfOrder key last))

/-- A range to remove must not be empty, and must not leave packets in front of it. -/
def checkRange (first last : Nat) (head : Option Nat) : Except Error Unit :=
  if last < first then .error (.storage (.emptyRange first last))
  else match head with
    | some head =>
      if head < first then .error (.storage (.rangeBehindHead first last head)) else .ok ()
    | none => .ok ()

end Log

end GroupReplication
