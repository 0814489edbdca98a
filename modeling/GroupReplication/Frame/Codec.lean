/-
The bytes of a frame: version, type, body length in four bytes, body, and a checksum over all
that stands before it. Numbers have the least significant byte first. A text is led by its
length in two bytes; a packet is a header of 19 bytes and its payload; a batch is a count and
that many packets with increasing keys.
-/
import GroupReplication.Checksum
import GroupReplication.Packet.Codec

namespace GroupReplication.Frame

def currentVersion : UInt8 := 1

def headerLength : Nat := 6

def trailerLength : Nat := 4

def packetHeaderLength : Nat := 19

abbrev Reader := StateT Bytes (Except FrameFault)

def malformed {α : Type} (cause : Malformation) : Except FrameFault α :=
  .error (.malformed cause)

def putFlag (b : Bool) : Bytes := [if b then 1 else 0]

def putText (s : String) : Except FrameFault Bytes :=
  let bs := Utf8.encode s
  if bs.length < 2 ^ 16 then .ok (littleEndian 2 bs.length ++ bs)
  else malformed .textTooLong

def putState : Option Bytes → Except FrameFault Bytes
  | none => .ok [0]
  | some bs =>
    if bs.length < 2 ^ 32 then .ok (1 :: littleEndian 4 bs.length ++ bs)
    else malformed .stateTooLong

def putPacket (p : Packet) : Except FrameFault Bytes :=
  let body := p.payload.encode
  if body.length < 2 ^ 32 then
    .ok (littleEndian 8 p.key ++ [p.kind.code] ++ littleEndian 4 p.weight
      ++ putFlag p.transient ++ putFlag p.fromGateway ++ littleEndian 4 body.length ++ body)
  else malformed .payloadTooLong

def putPackets : List Packet → Except FrameFault Bytes
  | [] => .ok []
  | p :: ps => do
    let bs ← putPacket p
    return bs ++ (← putPackets ps)

def putBatch (ps : List Packet) : Except FrameFault Bytes :=
  if ps.length < 2 ^ 32 then (littleEndian 4 ps.length ++ ·) <$> putPackets ps
  else malformed .batchTooLong

def encodeBody : Frame → Except FrameFault Bytes
  | .connect source group => do
    let s ← putText source
    return s ++ (← putText group)
  | .handshake r => do
    return putFlag r.first ++ littleEndian 8 r.lastConfirmed ++ (← putState r.state)
  | .handshakeReply r => do
    return littleEndian 8 r.startKey ++ putFlag r.discardLocalState ++ (← putState r.state)
  | .packet p => putPacket p
  | .batch ps => putBatch ps
  | .ack key => .ok (littleEndian 8 key)
  | .reject code message => do
    return code.code :: (← putText message)

/-- Version, type, length and body: all that the checksum covers. -/
def sealed (type : FrameType) (body : Bytes) : Bytes :=
  currentVersion :: type.code :: (littleEndian 4 body.length ++ body)

def encode (f : Frame) : Except FrameFault Bytes := do
  let body ← f.encodeBody
  if body.length < 2 ^ 32 then
    let front := sealed f.type body
    return front ++ littleEndian 4 (Checksum.crc32 front).toNat
  else malformed .bodyTooLong

/-- Fails with the number of bytes missing unless `n` are left. -/
def need (n : Nat) (field : FrameField) : Reader Unit := fun bs =>
  if n ≤ bs.length then .ok ((), bs) else .error (.truncated field (n - bs.length))

def takeRaw (n : Nat) : Reader Bytes := fun bs => .ok (bs.splitAt n)

def takeNat (width : Nat) : Reader Nat := do
  return ofLittleEndian (← takeRaw width)

def takeByte : Reader UInt8 := do
  return UInt8.ofNat (← takeNat 1)

def getFlag : Reader Bool := do
  need 1 .flag
  match ← takeByte with
  | 0 => return false
  | 1 => return true
  | b => throw (.malformed (.flagByte b))

def getText (field : FrameField) : Reader String := do
  need 2 field
  let n ← takeNat 2
  need n field
  match Utf8.decode (← takeRaw n) with
  | .ok s => return s
  | .error fault => throw (.malformed (.notText field fault))

def getState : Reader (Option Bytes) := do
  if ← getFlag then
    need 4 .stateLength
    let n ← takeNat 4
    need n .state
    return some (← takeRaw n)
  else
    return none

def getKind : Reader OperationKind := do
  let c ← takeByte
  match OperationKind.ofCode? c with
  | some kind => return kind
  | none => throw (.unknownOperationKind c)

def getPacket : Reader Packet := do
  need packetHeaderLength .packetHeader
  let key ← takeNat 8
  let kind ← getKind
  let weight ← takeNat 4
  let transient ← getFlag
  let fromGateway ← getFlag
  let n ← takeNat 4
  need n .packetPayload
  match Payload.decode kind (← takeRaw n) with
  | .ok payload => return { key, weight, transient, fromGateway, payload }
  | .error cause => throw (.payload cause)

/-- `count` packets whose keys increase, and lie above `previous`. -/
def getPackets (previous : Option Nat) : (count : Nat) → Reader (List Packet)
  | 0 => return []
  | count + 1 => do
    let p ← getPacket
    match previous with
    | some k => if p.key ≤ k then throw (.malformed (.keysNotIncreasing p.key k))
    | none => pure ()
    return p :: (← getPackets (some p.key) count)

def getBatch : Reader (List Packet) := do
  need 4 .batchCount
  let count ← takeNat 4
  let rest ← get
  if rest.length / packetHeaderLength < count then
    throw (.malformed (.batchCount count rest.length))
  getPackets none count

def getRejectCode : Reader RejectCode := do
  need 1 .rejectCode
  let c ← takeByte
  match RejectCode.ofCode? c with
  | some code => return code
  | none => throw (.unknownRejectCode c)

def getBody : FrameType → Reader Frame
  | .connect => do
    let source ← getText .connectSource
    return .connect source (← getText .connectGroup)
  | .handshake => do
    need 9 .handshakeRequest
    let first ← getFlag
    let lastConfirmed ← takeNat 8
    return .handshake { first, lastConfirmed, state := ← getState }
  | .handshakeReply => do
    need 9 .handshakeResponse
    let startKey ← takeNat 8
    let discardLocalState ← getFlag
    return .handshakeReply { startKey, discardLocalState, state := ← getState }
  | .packet => .packet <$> getPacket
  | .batch => .batch <$> getBatch
  | .ack => do
    need 8 .ackKey
    return .ack (← takeNat 8)
  | .reject => do
    let code ← getRejectCode
    return .reject code (← getText .rejectMessage)

/-- The body length that a frame's header announces. -/
def bodyLength (header : Bytes) : Nat :=
  ofLittleEndian ((header.drop 2).take 4)

/-- Reads the body of a frame to its end. -/
def decodeBody (type : FrameType) (body : Bytes) : Except FrameFault Frame := do
  let (frame, rest) ← (getBody type).run body
  if rest.isEmpty then return frame
  else malformed (.unreadBytes rest.length type)

/-- Reads exactly one frame: lengths first, then the checksum, then version, type and body. -/
def decode (bs : Bytes) : Except FrameFault Frame := do
  if bs.length < headerLength + trailerLength then
    throw (.truncated .envelope (headerLength + trailerLength - bs.length))
  let bodyEnd := headerLength + bodyLength bs
  let total := bodyEnd + trailerLength
  if bs.length < total then
    throw (.truncated .envelopeBody (total - bs.length))
  if total < bs.length then
    malformed (.trailingBytes (bs.length - total))
  let front := bs.take bodyEnd
  let expected := UInt32.ofNat (ofLittleEndian (bs.drop bodyEnd))
  let actual := Checksum.crc32 front
  if expected ≠ actual then
    throw (.checksumMismatch expected actual)
  match front with
  | version :: code :: rest =>
    if version ≠ currentVersion then
      throw (.unsupportedVersion version)
    match FrameType.ofCode? code with
    | some type => decodeBody type (rest.drop 4)
    | none => throw (.unknownFrameType code)
  | _ => throw (.truncated .envelope headerLength)

end GroupReplication.Frame
