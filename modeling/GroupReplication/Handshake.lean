/-
How a channel changes its state, and where delivery starts for a target. The decision depends
on the target's request and on the keys that the source still has, and changes nothing.
-/
import GroupReplication.Error

namespace GroupReplication

/-- The next state, if the step to it is allowed. -/
def ChannelState.transition (current next : ChannelState) : Except Error ChannelState :=
  if current.allows next then .ok next else .error (.channel (.transition current next))

/-- The keys that a source can still deliver. -/
structure RetainedRange where
  firstKey : Option Nat
  nextKey : Nat
  deriving Repr, DecidableEq

namespace RetainedRange

/-- The earliest key that a channel can start from. -/
def earliest (r : RetainedRange) : Nat := r.firstKey.getD r.nextKey

end RetainedRange

/-- A first handshake starts at the earliest key and lets the target drop its stale copy. Any
other resumes right behind the target's last confirmed key, and fails if that key was never
issued, or if the one behind it is gone. -/
def negotiate (request : HandshakeRequest) (range : RetainedRange) :
    Except Error HandshakeResponse :=
  let requested := request.lastConfirmed + 1
  if request.first then .ok ⟨range.earliest, true, none⟩
  else if 2 ^ 64 ≤ requested then .error (.handshake (.keyOutOfRange request.lastConfirmed))
  else if range.nextKey < requested then
    .error (.handshake (.keyNeverIssued request.lastConfirmed (range.nextKey - 1)))
  else if requested < range.earliest then
    .error (.resumeKeyCompacted requested range.earliest)
  else .ok ⟨requested, false, none⟩

end GroupReplication
