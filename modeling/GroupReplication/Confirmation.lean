/-
What a channel has confirmed: the highest key, an error pinned to a later key, the weight that
is still to be confirmed, and how many packets were discarded before they could be.
-/
import GroupReplication.Error
import GroupReplication.Table

namespace GroupReplication

/-- Counts stop at the largest number of 64 bits. -/
def saturate (n : Nat) : Nat := min n (2 ^ 64 - 1)

/-- A weight with every discarded packet charged at `factor`. -/
def calculatedWeight (weight discarded factor : Nat) : Nat :=
  saturate (weight + saturate (discarded * factor))

structure PendingError where
  key : Nat
  error : Error
  deriving Repr, DecidableEq

structure Confirmation where
  lastConfirmed : Nat
  pendingError : Option PendingError
  weight : Nat
  discarded : Nat
  deriving Repr, DecidableEq

namespace Confirmation

/-- Everything up to `key` is confirmed, and nothing is outstanding. -/
def upTo (key : Nat) : Confirmation := ⟨key, none, 0, 0⟩

/-- Confirms everything up to `key`, and drops an error that this passes. -/
def advance (key : Nat) (c : Confirmation) : Confirmation :=
  if key ≤ c.lastConfirmed then c
  else { c with
    lastConfirmed := key
    pendingError := c.pendingError.filter (key < ·.key) }

/-- Whether confirming `key` says anything new. -/
def isAhead (key : Nat) (c : Confirmation) : Bool := c.lastConfirmed < key

/-- Pins an error to a key that is not yet confirmed, in place of an earlier one. -/
def pin (key : Nat) (error : Error) (c : Confirmation) : Confirmation :=
  if key ≤ c.lastConfirmed then c else { c with pendingError := some ⟨key, error⟩ }

def unpin (c : Confirmation) : Confirmation := { c with pendingError := none }

def addWeight (weight : Nat) (c : Confirmation) : Confirmation :=
  { c with weight := saturate (c.weight + weight) }

def subWeight (weight : Nat) (c : Confirmation) : Confirmation :=
  { c with weight := c.weight - weight }

def setWeight (weight : Nat) (c : Confirmation) : Confirmation := { c with weight }

/-- Charges discarded packets, which no longer have to be confirmed. -/
def discard (count weight : Nat) (c : Confirmation) : Confirmation :=
  { c with discarded := saturate (c.discarded + count) }.subWeight weight

def calculated (factor : Nat) (c : Confirmation) : Nat :=
  calculatedWeight c.weight c.discarded factor

/-- The key that all have confirmed. -/
def frontier? (cs : List Confirmation) : Option Nat := (cs.map (·.lastConfirmed)).min?

theorem lastConfirmed_advance (key : Nat) (c : Confirmation) :
    (c.advance key).lastConfirmed = max c.lastConfirmed key := by
  unfold advance
  split
  · omega
  · show key = max c.lastConfirmed key
    omega

end Confirmation

end GroupReplication
