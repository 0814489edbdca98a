/-
What can be wrong with the bytes of a frame.
-/
import GroupReplication.Frame.Basic
import GroupReplication.Text.Utf8

namespace GroupReplication

/-- The parts of a frame at which its bytes may run out. -/
inductive FrameField where
  | envelope
  | envelopeBody
  | connectSource
  | connectGroup
  | handshakeRequest
  | handshakeResponse
  | packetHeader
  | packetPayload
  | batchCount
  | ackKey
  | rejectCode
  | rejectMessage
  | flag
  | stateLength
  | state
  deriving Repr, DecidableEq

namespace FrameField

def label : FrameField → String
  | .envelope => "envelope"
  | .envelopeBody => "envelope body"
  | .connectSource => "connect source"
  | .connectGroup => "connect group"
  | .handshakeRequest => "handshake request"
  | .handshakeResponse => "handshake response"
  | .packetHeader => "packet header"
  | .packetPayload => "packet payload"
  | .batchCount => "batch count"
  | .ackKey => "ack key"
  | .rejectCode => "reject code"
  | .rejectMessage => "reject message"
  | .flag => "bool"
  | .stateLength => "state blob length"
  | .state => "state blob"

end FrameField

/-- Why the bytes of a payload cannot be read. -/
inductive PayloadFault where
  /-- A text announces more bytes than are left. -/
  | textCut
  | endOfInput
  | notText (fault : Utf8Fault)
  | optionTag (found : Nat)
  | operationTag (found : Nat)
  deriving Repr, DecidableEq

namespace PayloadFault

def message : PayloadFault → String
  | .textCut => "io error: "
  | .endOfInput => "io error: unexpected end of file"
  | .notText f => "string is not valid utf8: " ++ f.message
  | .optionTag n => s!"tag for enum is not valid, found {n}"
  | .operationTag n => s!"invalid value: integer `{n}`, expected variant index 0 <= i < 4"

end PayloadFault

/-- A part of a frame that has a value not allowed in its place. -/
inductive Malformation where
  | bodyTooLong
  | payloadTooLong
  | batchTooLong
  | textTooLong
  | stateTooLong
  | trailingBytes (count : Nat)
  | unreadBytes (count : Nat) (type : FrameType)
  | flagByte (found : UInt8)
  | notText (field : FrameField) (fault : Utf8Fault)
  | batchCount (count remaining : Nat)
  | keysNotIncreasing (key previous : Nat)
  | reported (text : String)
  deriving Repr, DecidableEq

namespace Malformation

def message : Malformation → String
  | .bodyTooLong => "frame body exceeds u32 length"
  | .payloadTooLong => "payload exceeds u32 length"
  | .batchTooLong => "batch exceeds u32 count"
  | .textTooLong => "string exceeds u16 length"
  | .stateTooLong => "state blob exceeds u32 length"
  | .trailingBytes n => s!"{n} trailing bytes after frame"
  | .unreadBytes n t => s!"{n} unread bytes in " ++ t.name ++ " body"
  | .flagByte b => s!"invalid bool byte {b}"
  | .notText field f => field.label ++ ": invalid UTF-8: " ++ f.message
  | .batchCount n remaining => s!"batch count {n} exceeds remaining {remaining} bytes"
  | .keysNotIncreasing key previous => s!"batch keys not increasing: {key} after {previous}"
  | .reported text => text

end Malformation

inductive FrameFault where
  | truncated (field : FrameField) (needed : Nat)
  | checksumMismatch (expected actual : UInt32)
  | unsupportedVersion (version : UInt8)
  | unknownFrameType (code : UInt8)
  | unknownOperationKind (code : UInt8)
  | unknownRejectCode (code : UInt8)
  | malformed (cause : Malformation)
  | payload (cause : PayloadFault)
  deriving Repr, DecidableEq

namespace FrameFault

def name : FrameFault → String
  | .truncated .. => "Truncated"
  | .checksumMismatch .. => "ChecksumMismatch"
  | .unsupportedVersion _ => "UnsupportedVersion"
  | .unknownFrameType _ => "UnknownFrameType"
  | .unknownOperationKind _ => "UnknownOperationKind"
  | .unknownRejectCode _ => "UnknownRejectCode"
  | .malformed _ => "Malformed"
  | .payload _ => "Payload"

/-- Two hexadecimal digits. -/
def byteText (b : UInt8) : String :=
  if b < 16 then "0" ++ hexText b.toNat else hexText b.toNat

def message : FrameFault → String
  | .truncated field n =>
    s!"Truncated frame: needed {n} more bytes while reading " ++ field.label
  | .checksumMismatch expected actual =>
    "CRC mismatch: expected " ++ hexText expected.toNat ++ ", got " ++ hexText actual.toNat
  | .unsupportedVersion v => s!"Unsupported protocol version: {v}"
  | .unknownFrameType c => "Unknown frame type: 0x" ++ byteText c
  | .unknownOperationKind c => s!"Unknown operation kind: {c}"
  | .unknownRejectCode c => s!"Unknown reject code: {c}"
  | .malformed cause => "Malformed frame: " ++ cause.message
  | .payload cause => "Payload codec error: " ++ cause.message

end FrameFault

end GroupReplication
