/-
A frame that can be encoded is decoded to itself, if its numbers fit their fields and the keys
of a batch increase.
-/
import GroupReplication.Frame.Codec
import GroupReplication.Proofs.Action
import GroupReplication.Proofs.Packet.RoundTrip

namespace GroupReplication.Frame

/-- Keys that increase, and lie above `previous`. -/
def Increasing : (previous : Option Nat) → List Packet → Prop
  | _, [] => True
  | previous, p :: ps => (∀ k, previous = some k → k < p.key) ∧ Increasing (some p.key) ps

/-- The packets of a batch stand in the order of their keys. -/
def Ordered : Frame → Prop
  | .batch ps => Increasing none ps
  | _ => True

section Readers

variable {α : Type} {bs cs : Bytes}

/-- A check for bytes that are there is passed over. -/
theorem reads_need {n : Nat} {field : FrameField} {r : Reader α} {a : α} (hn : n ≤ bs.length)
    (h : Reads r bs a) : Reads (need n field >>= fun _ => r) bs a := by
  intro rest
  have hneed : (need n field).run (bs ++ rest) = .ok ((), bs ++ rest) := by
    simp only [need, StateT.run, List.length_append]
    rw [if_pos (by omega)]
  rw [StateT.run_bind, hneed]
  exact h rest

theorem reads_takeRaw (bs : Bytes) : Reads (takeRaw bs.length) bs bs := by
  intro rest
  simp [takeRaw, StateT.run]

theorem reads_takeNat {width n : Nat} (h : n < 256 ^ width) :
    Reads (takeNat width) (littleEndian width n) n := by
  have hr := (reads_takeRaw (littleEndian width n)).bind_pure ofLittleEndian
  rw [length_littleEndian, ofLittleEndian_littleEndian width n h] at hr
  exact hr

theorem reads_takeByte (b : UInt8) : Reads takeByte [b] b := by
  have hlt : b.toNat < 256 ^ 1 := by simpa using b.toNat_lt
  have h := (reads_takeNat hlt).bind_pure UInt8.ofNat
  have hb : littleEndian 1 b.toNat = [b] := by simp [littleEndian]
  rwa [UInt8.ofNat_toNat, hb] at h

theorem reads_getFlag (b : Bool) : Reads getFlag (putFlag b) b := by
  refine reads_need (by simp [putFlag]) ?_
  cases b with
  | false => exact (reads_takeByte 0).bind (Reads.pure false)
  | true => exact (reads_takeByte 1).bind (Reads.pure true)

theorem length_putFlag (b : Bool) : (putFlag b).length = 1 := rfl

theorem reads_getText {s : String} {field : FrameField} (h : putText s = .ok bs) :
    Reads (getText field) bs s := by
  simp only [putText] at h
  split at h
  · rename_i hlen
    cases h
    refine reads_need (by simp) ((reads_takeNat (by simpa using hlen)).bind ?_)
    refine reads_need (Nat.le_refl _) ?_
    refine (reads_takeRaw (Utf8.encode s)).bind_nil ?_
    rw [Utf8.decode_encode]
    exact Reads.pure s
  · cases h

theorem length_putState {state : Option Bytes} (h : putState state = .ok bs) :
    1 ≤ bs.length := by
  cases state with
  | none => cases h; decide
  | some blob =>
    simp only [putState] at h
    split at h
    · cases h; simp
    · cases h

theorem reads_getState {state : Option Bytes} (h : putState state = .ok bs) :
    Reads getState bs state := by
  cases state with
  | none => cases h; exact (reads_getFlag false).bind (Reads.pure none)
  | some blob =>
    simp only [putState] at h
    split at h
    · rename_i hlen
      cases h
      refine (reads_getFlag true).bind (reads_need (by simp) ?_)
      refine (reads_takeNat (by simpa using hlen)).bind (reads_need (Nat.le_refl _) ?_)
      exact (reads_takeRaw blob).bind_pure some
    · cases h

theorem reads_getKind (kind : OperationKind) : Reads getKind [kind.code] kind := by
  refine (reads_takeByte kind.code).bind_nil ?_
  rw [OperationKind.ofCode?_code]
  exact Reads.pure kind

end Readers

/-! ## Packets and batches -/

theorem length_putPacket {p : Packet} {bs : Bytes} (h : putPacket p = .ok bs) :
    bs.length = packetHeaderLength + p.payload.encode.length := by
  simp only [putPacket] at h
  split at h
  · cases h
    simp [length_putFlag, packetHeaderLength]
    omega
  · cases h

theorem reads_getPacket {p : Packet} {bs : Bytes} (h : putPacket p = .ok bs) (hfits : p.Fits) :
    Reads getPacket bs p := by
  have hlength := length_putPacket h
  simp only [putPacket] at h
  split at h
  · rename_i hlen
    cases h
    refine reads_need (by omega) ?_
    simp only [List.append_assoc]
    refine (reads_takeNat (by simpa using hfits.1)).bind ?_
    refine (reads_getKind p.kind).bind ?_
    refine (reads_takeNat (by simpa using hfits.2)).bind ?_
    refine (reads_getFlag p.transient).bind ((reads_getFlag p.fromGateway).bind ?_)
    refine (reads_takeNat (by simpa using hlen)).bind (reads_need (Nat.le_refl _) ?_)
    refine (reads_takeRaw p.payload.encode).bind_nil ?_
    rw [Packet.kind, Payload.decode_encode p.payload (by omega)]
    exact Reads.pure p
  · cases h

theorem length_putPackets {ps : List Packet} {bs : Bytes} (h : putPackets ps = .ok bs) :
    packetHeaderLength * ps.length ≤ bs.length := by
  induction ps generalizing bs with
  | nil => cases h; simp
  | cons p ps ih =>
    simp only [putPackets, bind, Except.bind] at h
    split at h
    · cases h
    · rename_i front hfront
      split at h
      · cases h
      · rename_i rest hrest
        cases h
        have := ih hrest
        have := length_putPacket hfront
        simp only [List.length_append, List.length_cons, packetHeaderLength] at *
        omega

theorem reads_getPackets {ps : List Packet} {bs : Bytes} {previous : Option Nat}
    (h : putPackets ps = .ok bs) (hfits : ∀ p ∈ ps, p.Fits) (horder : Increasing previous ps) :
    Reads (getPackets previous ps.length) bs ps := by
  induction ps generalizing bs previous with
  | nil => cases h; exact Reads.pure []
  | cons p ps ih =>
    obtain ⟨hfirst, horder⟩ := horder
    simp only [putPackets, bind, Except.bind] at h
    split at h
    · cases h
    · rename_i front hfront
      split at h
      · cases h
      · rename_i rest hrest
        cases h
        refine (reads_getPacket hfront (hfits p (by simp))).bind ?_
        have htail := (ih hrest (fun q hq => hfits q (by simp [hq])) horder).bind_pure (p :: ·)
        cases previous with
        | none => exact htail
        | some k =>
          have hk := hfirst k rfl
          intro more
          simp only [if_neg (show ¬ p.key ≤ k by omega)]
          exact htail more

/-- The count of a batch is no more than the bytes behind it can hold, so its packets are read. -/
theorem run_getBatch_of {ps : List Packet} {front : Bytes} (h : putPackets ps = .ok front)
    (hcount : ps.length < 2 ^ 32) : getBatch.run (littleEndian 4 ps.length ++ front)
      = (getPackets none ps.length).run front := by
  have hlength := length_putPackets h
  have hneed : (need 4 FrameField.batchCount).run (littleEndian 4 ps.length ++ front)
      = .ok ((), littleEndian 4 ps.length ++ front) := by
    simp [need, StateT.run]
  have hlt : ps.length < 256 ^ 4 := by simpa using hcount
  have hnat := reads_takeNat hlt front
  have hdiv : ¬ front.length / packetHeaderLength < ps.length := by
    rw [Nat.not_lt, Nat.le_div_iff_mul_le (by decide), Nat.mul_comm]
    exact hlength
  rw [getBatch, StateT.run_bind, hneed, ok_bind, StateT.run_bind, hnat, ok_bind,
    StateT.run_bind, StateT.run_get, pure_bind]
  simp only [if_neg hdiv]

/-- The bytes of a batch are its count and its packets. -/
theorem putBatch_eq_ok {ps : List Packet} {bs : Bytes} (h : putBatch ps = .ok bs) :
    ps.length < 2 ^ 32 ∧ ∃ front, putPackets ps = .ok front ∧ bs = littleEndian 4 ps.length ++ front := by
  simp only [putBatch] at h
  split at h
  · rename_i hcount
    cases hfront : putPackets ps with
    | error e => simp [hfront, Functor.map, Except.map] at h
    | ok front =>
      simp only [hfront, Functor.map, Except.map, Except.ok.injEq] at h
      exact ⟨hcount, front, rfl, h.symm⟩
  · cases h

/-- The whole body of a batch is read; its count is checked against the bytes that are left. -/
theorem run_getBatch {ps : List Packet} {bs : Bytes} (h : putBatch ps = .ok bs)
    (hfits : ∀ p ∈ ps, p.Fits) (horder : Increasing none ps) :
    getBatch.run bs = .ok (ps, []) := by
  obtain ⟨hcount, front, hfront, rfl⟩ := putBatch_eq_ok h
  have hread := reads_getPackets hfront hfits horder []
  rw [List.append_nil] at hread
  rw [run_getBatch_of hfront hcount, hread]

/-! ## Whole frames -/

theorem run_of_reads {α : Type} {r : Reader α} {bs : Bytes} {a : α} (h : Reads r bs a) :
    r.run bs = .ok (a, []) := by
  have := h []
  rwa [List.append_nil] at this

theorem run_getBody {f : Frame} {bs : Bytes} (h : f.encodeBody = .ok bs) (hfits : f.Fits)
    (horder : f.Ordered) : (getBody f.type).run bs = .ok (f, []) := by
  cases f with
  | connect source group =>
    obtain ⟨front, hfront, h⟩ := bind_eq_ok h
    obtain ⟨rest, hrest, h⟩ := bind_eq_ok h
    cases h
    exact run_of_reads ((reads_getText hfront).bind ((reads_getText hrest).bind_pure _))
  | handshake r =>
    obtain ⟨state, hstate, h⟩ := bind_eq_ok h
    cases h
    have := length_putState hstate
    refine run_of_reads (reads_need (by simp [length_putFlag]; omega) ?_)
    rw [List.append_assoc]
    exact (reads_getFlag r.first).bind ((reads_takeNat (by simpa [Fits] using hfits)).bind
      ((reads_getState hstate).bind_pure _))
  | handshakeReply r =>
    obtain ⟨state, hstate, h⟩ := bind_eq_ok h
    cases h
    have := length_putState hstate
    refine run_of_reads (reads_need (by simp [length_putFlag]; omega) ?_)
    rw [List.append_assoc]
    exact (reads_takeNat (by simpa [Fits] using hfits)).bind ((reads_getFlag r.discardLocalState).bind
      ((reads_getState hstate).bind_pure _))
  | packet p => exact run_of_reads ((reads_getPacket h hfits).map _)
  | batch ps =>
    show StateT.run (Frame.batch <$> getBatch) bs = _
    rw [StateT.run_map, run_getBatch h hfits horder]
    rfl
  | ack key =>
    cases h
    exact run_of_reads (reads_need (by simp) ((reads_takeNat (by simpa [Fits] using hfits)).bind_pure _))
  | reject code message =>
    obtain ⟨text, htext, h⟩ := bind_eq_ok h
    cases h
    have hcode : Reads getRejectCode [code.code] code := by
      refine reads_need (Nat.le_refl _) ((reads_takeByte code.code).bind_nil ?_)
      rw [RejectCode.ofCode?_code]
      exact Reads.pure code
    exact run_of_reads (hcode.bind ((reads_getText htext).bind_pure _))

theorem length_sealed (type : FrameType) (body : Bytes) :
    (sealed type body).length = headerLength + body.length := by
  simp [sealed, headerLength]
  omega

theorem bodyLength_sealed (type : FrameType) {body : Bytes} (rest : Bytes)
    (h : body.length < 2 ^ 32) : bodyLength (sealed type body ++ rest) = body.length := by
  have htake : ((sealed type body ++ rest).drop 2).take 4 = littleEndian 4 body.length := by
    have := length_littleEndian 4 body.length
    simp only [sealed, List.cons_append, List.drop_succ_cons, List.drop_zero, List.append_assoc]
    rw [List.take_append_of_le_length (by omega), List.take_of_length_le (by omega)]
  rw [bodyLength, htake, ofLittleEndian_littleEndian 4 _ (by simpa using h)]

/-- What an encoded frame looks like. -/
theorem encode_eq_ok {f : Frame} {bs : Bytes} (h : f.encode = .ok bs) :
    ∃ body, f.encodeBody = .ok body ∧ body.length < 2 ^ 32 ∧
      bs = sealed f.type body ++ littleEndian 4 (Checksum.crc32 (sealed f.type body)).toNat := by
  obtain ⟨body, hbody, h⟩ := bind_eq_ok h
  split at h
  · rename_i hlen
    cases h
    exact ⟨body, hbody, hlen, rfl⟩
  · cases h

/-- An envelope around a body is opened to what the body holds. -/
theorem decode_sealed {type : FrameType} {body : Bytes} (h : body.length < 2 ^ 32) :
    decode (sealed type body ++ littleEndian 4 (Checksum.crc32 (sealed type body)).toNat)
      = decodeBody type body := by
  have hlen := length_sealed type body
  have hbody := bodyLength_sealed type
    (littleEndian 4 (Checksum.crc32 (sealed type body)).toNat) h
  have hcrc : UInt32.ofNat (ofLittleEndian
      (littleEndian 4 (Checksum.crc32 (sealed type body)).toNat))
      = Checksum.crc32 (sealed type body) := by
    rw [ofLittleEndian_littleEndian _ _ (by simpa using UInt32.toNat_lt _), UInt32.ofNat_toNat]
  have htotal : (sealed type body ++
      littleEndian 4 (Checksum.crc32 (sealed type body)).toNat).length
      = headerLength + body.length + trailerLength := by
    rw [List.length_append, hlen, length_littleEndian]
    rfl
  rw [decode, hbody, htotal]
  rw [if_neg (by omega), if_neg (by omega), if_neg (by omega)]
  rw [← hlen, List.take_left, List.drop_left, hcrc]
  simp [sealed, FrameType.ofCode?_code, currentVersion]

/-- A frame is decoded from its own bytes. -/
theorem decode_encode {f : Frame} {bs : Bytes} (h : f.encode = .ok bs) (hfits : f.Fits)
    (horder : f.Ordered) : decode bs = .ok f := by
  obtain ⟨body, hbody, hlen, rfl⟩ := encode_eq_ok h
  rw [decode_sealed hlen, decodeBody, run_getBody hbody hfits horder]
  rfl

end GroupReplication.Frame
