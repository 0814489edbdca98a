/-
The frames that a source and a target exchange.
-/
import GroupReplication.Packet.Basic

namespace GroupReplication

inductive FrameType where
  | connect
  | handshake
  | handshakeReply
  | packet
  | batch
  | ack
  | reject
  deriving Repr, DecidableEq

namespace FrameType

def code : FrameType → UInt8
  | .connect => 0x01
  | .handshake => 0x02
  | .handshakeReply => 0x03
  | .packet => 0x10
  | .batch => 0x11
  | .ack => 0x20
  | .reject => 0xFF

def ofCode? (c : UInt8) : Option FrameType :=
  [connect, handshake, handshakeReply, packet, batch, ack, reject].find? (·.code == c)

def name : FrameType → String
  | .connect => "Connect"
  | .handshake => "Handshake"
  | .handshakeReply => "HandshakeReply"
  | .packet => "Packet"
  | .batch => "Batch"
  | .ack => "Ack"
  | .reject => "Reject"

@[simp] theorem ofCode?_code (t : FrameType) : ofCode? t.code = some t := by
  cases t <;> rfl

theorem code_of_ofCode? {c : UInt8} {t : FrameType} (h : ofCode? c = some t) : t.code = c := by
  simpa using List.find?_some h

end FrameType

/-- Why a target refuses a frame. -/
inductive RejectCode where
  | sourceAlreadyAttached
  | resumeKeyCompacted
  | protocol
  | unknownGroup
  | internal
  deriving Repr, DecidableEq

namespace RejectCode

def code : RejectCode → UInt8
  | .sourceAlreadyAttached => 1
  | .resumeKeyCompacted => 2
  | .protocol => 3
  | .unknownGroup => 4
  | .internal => 5

def ofCode? (c : UInt8) : Option RejectCode :=
  [sourceAlreadyAttached, resumeKeyCompacted, protocol, unknownGroup, internal].find?
    (·.code == c)

def name : RejectCode → String
  | .sourceAlreadyAttached => "SourceAlreadyAttached"
  | .resumeKeyCompacted => "ResumeKeyCompacted"
  | .protocol => "Protocol"
  | .unknownGroup => "UnknownGroup"
  | .internal => "Internal"

@[simp] theorem ofCode?_code (r : RejectCode) : ofCode? r.code = some r := by
  cases r <;> rfl

theorem code_of_ofCode? {c : UInt8} {r : RejectCode} (h : ofCode? c = some r) : r.code = c := by
  simpa using List.find?_some h

end RejectCode

/-- What a target asks for when a source connects. On a first handshake it holds no usable
copy of the group, and `lastConfirmed` means nothing. -/
structure HandshakeRequest where
  first : Bool
  lastConfirmed : Nat
  state : Option Bytes
  deriving Repr, DecidableEq

/-- Where the source resumes, and whether the target has to drop its copy before. -/
structure HandshakeResponse where
  startKey : Nat
  discardLocalState : Bool
  state : Option Bytes
  deriving Repr, DecidableEq

inductive Frame where
  | connect (source group : String)
  | handshake (request : HandshakeRequest)
  | handshakeReply (response : HandshakeResponse)
  | packet (packet : Packet)
  | batch (packets : List Packet)
  /-- Everything up to and including `key` is applied. -/
  | ack (key : Nat)
  | reject (code : RejectCode) (message : String)
  deriving Repr, DecidableEq

namespace Frame

def type : Frame → FrameType
  | .connect .. => .connect
  | .handshake _ => .handshake
  | .handshakeReply _ => .handshakeReply
  | .packet _ => .packet
  | .batch _ => .batch
  | .ack _ => .ack
  | .reject .. => .reject

/-- Every number in the frame fits the field that it is written to. -/
def Fits : Frame → Prop
  | .connect .. | .reject .. => True
  | .handshake r => r.lastConfirmed < 2 ^ 64
  | .handshakeReply r => r.startKey < 2 ^ 64
  | .packet p => p.Fits
  | .batch ps => ∀ p ∈ ps, p.Fits
  | .ack key => key < 2 ^ 64

end Frame

end GroupReplication
