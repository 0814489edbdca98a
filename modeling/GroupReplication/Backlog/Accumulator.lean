/-
Packets that wait to be cut into a batch, in the order in which they came. A batch is due when
enough of them wait, or when the first has waited long enough.
-/
import GroupReplication.Packet.Basic

namespace GroupReplication

structure Accumulator where
  /-- Each packet with the time at which it came. -/
  pending : List (Nat × Packet)
  maxSize : Nat
  maxAge : Nat
  deriving Repr, DecidableEq

namespace Accumulator

/-- A batch always has room for one packet. -/
def empty (maxSize maxAge : Nat) : Accumulator := ⟨[], max maxSize 1, maxAge⟩

def size (a : Accumulator) : Nat := a.pending.length

def isEmpty (a : Accumulator) : Bool := a.pending.isEmpty

def packets (a : Accumulator) : List Packet := a.pending.map (·.2)

def push (now : Nat) (p : Packet) (a : Accumulator) : Accumulator :=
  { a with pending := a.pending ++ [(now, p)] }

def isReady (now : Nat) (a : Accumulator) : Bool :=
  match a.pending with
  | [] => false
  | (arrived, _) :: _ => a.maxSize ≤ a.size || a.maxAge ≤ now - arrived

/-- Cuts a batch from the front. -/
def takeBatch (a : Accumulator) : List Packet × Accumulator :=
  (a.packets.take a.maxSize, { a with pending := a.pending.drop a.maxSize })

/-- Cuts a batch if one is due, or, when forced, if any packet waits. -/
def poll (now : Nat) (force : Bool) (a : Accumulator) : Option (List Packet × Accumulator) :=
  if !a.isEmpty && (force || a.isReady now) then some a.takeBatch else none

/-- Drops the packets with keys up to `key`. -/
def pruneUpTo (key : Nat) (a : Accumulator) : Accumulator :=
  { a with pending := a.pending.filter (key < ·.2.key) }

def clear (a : Accumulator) : Accumulator := { a with pending := [] }

end Accumulator

end GroupReplication
