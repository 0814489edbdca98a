/-
Records of a data file. A record is the frame of one packet, so it carries its own length and
checksum. A record that runs past the end of the file is the trace of a write cut short, unless
a whole record follows behind its header: then its length is damaged.
-/
import GroupReplication.Error
import GroupReplication.Frame.Codec

namespace GroupReplication.Record

def encode (p : Packet) : Except FrameFault Bytes := (Frame.packet p).encode

def decode (bs : Bytes) : Except FrameFault Packet := do
  match ← Frame.decode bs with
  | .packet p => return p
  | f => throw (.unknownFrameType f.type.code)

/-- The length of the record that starts with `header`. -/
def announcedLength (header : Bytes) : Nat :=
  Frame.headerLength + Frame.bodyLength header + Frame.trailerLength

def hasHeader : Bytes → Bool
  | version :: type :: _ => version == Frame.currentVersion && type == FrameType.packet.code
  | _ => false

/-- A whole, readable record stands at the front. -/
def leads (bs : Bytes) : Bool :=
  hasHeader bs && (announcedLength bs ≤ bs.length &&
    (decode (bs.take (announcedLength bs))).isOk)

/-- A whole, readable record starts anywhere. -/
def occursIn : Bytes → Bool
  | [] => false
  | b :: bs => leads (b :: bs) || occursIn bs

/-- What stands at the front of the rest of a data file. -/
inductive Lead where
  | record (bytes : Bytes)
  | ended
  | torn
  | corrupt (cause : Corruption)
  deriving Repr, DecidableEq

/-- Reads the front of `bs`, where a record may reach over `available` bytes. -/
def read (available : Nat) (bs : Bytes) : Lead :=
  match bs with
  | [] => .ended
  | version :: rest =>
    if bs.length < Frame.headerLength then .torn
    else if !hasHeader bs then .corrupt (.header version (rest.headD 0))
    else if available < announcedLength bs then
      if occursIn (bs.drop Frame.headerLength) then
        .corrupt (.overrun (announcedLength bs) available)
      else .torn
    else if bs.length < announcedLength bs then .torn
    else .record (bs.take (announcedLength bs))

/-- A record that was read stands at the front, and is not empty. -/
theorem read_eq_record {available : Nat} {bs r : Bytes} (h : read available bs = .record r) :
    0 < r.length ∧ r.length ≤ bs.length ∧ r = bs.take r.length := by
  unfold read at h
  split at h
  · cases h
  · split at h <;> try cases h
    split at h <;> try cases h
    split at h
    · split at h <;> cases h
    · split at h <;> try cases h
      rename_i version rest _ _ _ hle
      have hlen : 0 < announcedLength (version :: rest) := by
        unfold announcedLength Frame.headerLength
        omega
      simp only [List.length_take]
      refine ⟨by omega, by omega, ?_⟩
      rw [Nat.min_eq_left (by omega)]

/-- A record and its place in a data file. -/
structure Located where
  offset : Nat
  length : Nat
  packet : Packet
  deriving Repr, DecidableEq

/-- The records of a data file from `offset` to `endOffset`; behind them stands a torn one if
`torn` holds. -/
structure Scan where
  records : List Located
  endOffset : Nat
  torn : Bool
  deriving Repr, DecidableEq

/-- Reads records to the end of a data file. -/
def scan (offset : Nat) (bs : Bytes) : Except LogDamage Scan :=
  match _h : read bs.length bs with
  | .ended => .ok ⟨[], offset, false⟩
  | .torn => .ok ⟨[], offset, true⟩
  | .corrupt cause => .error (.corruptRecord offset cause)
  | .record r =>
    match decode r with
    | .error cause => .error (.undecodableRecord offset cause)
    | .ok p => do
      let s ← scan (offset + r.length) (bs.drop r.length)
      return { s with records := ⟨offset, r.length, p⟩ :: s.records }
termination_by bs.length
decreasing_by
  have := read_eq_record _h
  simp only [List.length_drop]
  omega

/-- The packets that a reader meets before it fails, and why it fails. -/
structure Reading where
  packets : List Packet
  fault : Option RecordFault
  deriving Repr, DecidableEq

/-- Reads `count` records that stand behind one another between `offset` and `endOffset`. -/
def readMany (endOffset : Nat) : (count offset : Nat) → Bytes → Reading
  | 0, _, _ => ⟨[], none⟩
  | count + 1, offset, bs =>
    match read (endOffset - offset) bs with
    | .ended | .torn => ⟨[], some (.missing offset)⟩
    | .corrupt cause => ⟨[], some (.corrupt offset cause)⟩
    | .record r =>
      match decode r with
      | .error cause => ⟨[], some (.undecodable cause)⟩
      | .ok p =>
        let rest := readMany endOffset count (offset + r.length) (bs.drop r.length)
        { rest with packets := p :: rest.packets }

end GroupReplication.Record
