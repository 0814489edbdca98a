/-
What bytes that are read as a frame must look like: the lengths written in them are their own, and
they end with their checksum. The body of a packet says twice how long it is, once in the envelope
and once in its own header, and a frame is read only if the two agree.
-/
import GroupReplication.Proofs.Frame.RoundTrip
import GroupReplication.Proofs.Checksum
import GroupReplication.Proofs.Packet.Spelling

namespace GroupReplication.Frame

/-- The bytes of a packet with `slack` behind the value in its payload. -/
def paddedPacket (p : Packet) (slack : Bytes) : Bytes :=
  littleEndian 8 p.key ++ [p.kind.code] ++ littleEndian 4 p.weight ++ putFlag p.transient
    ++ putFlag p.fromGateway ++ littleEndian 4 (p.payload.encode.length + slack.length)
    ++ (p.payload.encode ++ slack)

theorem length_paddedPacket (p : Packet) (slack : Bytes) : (paddedPacket p slack).length
    = packetHeaderLength + (p.payload.encode.length + slack.length) := by
  simp only [paddedPacket, List.length_append, List.length_singleton, length_littleEndian,
    length_putFlag, packetHeaderLength]

/-- Where the header of a packet says how long its payload is. -/
theorem announced_paddedPacket (p : Packet) (slack : Bytes) : ((paddedPacket p slack).drop 15).take 4
    = littleEndian 4 (p.payload.encode.length + slack.length) := by
  rw [paddedPacket, List.append_assoc, List.drop_left' (by simp [length_putFlag]),
    List.take_left' (by simp)]

section Readers

variable {α β : Type} {bs rest : Bytes}

theorem run_need_eq_ok {n : Nat} {field : FrameField} {u : Unit}
    (h : (need n field).run bs = .ok (u, rest)) : n ≤ bs.length ∧ bs = rest := by
  simp only [need, StateT.run] at h
  split at h
  · rename_i hn
    cases h
    exact ⟨hn, rfl⟩
  · cases h

theorem run_takeRaw (n : Nat) (bs : Bytes) : (takeRaw n).run bs = .ok (bs.take n, bs.drop n) := by
  simp [takeRaw, StateT.run]

theorem run_takeNat (width : Nat) (bs : Bytes) :
    (takeNat width).run bs = .ok (ofLittleEndian (bs.take width), bs.drop width) := by
  rw [takeNat, StateT.run_bind, run_takeRaw]
  rfl

/-- A number is read from its own bytes, if they are there. -/
theorem run_takeNat_eq_ok {width n : Nat} (hwidth : width ≤ bs.length)
    (h : (takeNat width).run bs = .ok (n, rest)) :
    n < 256 ^ width ∧ bs = littleEndian width n ++ rest ∧ bs.length = width + rest.length := by
  rw [run_takeNat] at h
  cases h
  have hlength : (bs.take width).length = width := List.length_take_of_le hwidth
  have hlt := ofLittleEndian_lt (bs.take width)
  have hspelled := littleEndian_ofLittleEndian (bs.take width)
  rw [hlength] at hlt hspelled
  refine ⟨hlt, by rw [hspelled, List.take_append_drop], ?_⟩
  rw [List.length_drop]
  omega

theorem run_takeByte_eq_ok {b : UInt8} (hbyte : 1 ≤ bs.length) (h : takeByte.run bs = .ok (b, rest)) :
    bs = b :: rest := by
  obtain ⟨n, mid, hn, h⟩ := run_bind_eq_ok h
  obtain ⟨-, hbs, -⟩ := run_takeNat_eq_ok hbyte hn
  cases h
  exact hbs

theorem run_getKind_eq_ok {kind : OperationKind} (hbyte : 1 ≤ bs.length)
    (h : getKind.run bs = .ok (kind, rest)) :
    bs = [kind.code] ++ rest ∧ bs.length = 1 + rest.length := by
  obtain ⟨c, mid, hc, h⟩ := run_bind_eq_ok h
  have hbs := run_takeByte_eq_ok hbyte hc
  split at h
  · rename_i hkind
    cases h
    rw [hbs, OperationKind.code_of_ofCode? hkind]
    exact ⟨rfl, Nat.add_comm ..⟩
  · cases h

theorem run_getFlag_eq_ok {b : Bool} (h : getFlag.run bs = .ok (b, rest)) :
    bs = putFlag b ++ rest ∧ bs.length = 1 + rest.length := by
  obtain ⟨_, mid, hneed, h⟩ := run_bind_eq_ok h
  obtain ⟨hbyte, rfl⟩ := run_need_eq_ok hneed
  obtain ⟨c, mid, hc, h⟩ := run_bind_eq_ok h
  have hbs := run_takeByte_eq_ok hbyte hc
  split at h
  case h_1 | h_2 =>
    cases h
    rw [hbs]
    exact ⟨rfl, Nat.add_comm ..⟩
  case h_3 => cases h

/-- A packet stands in front with the fields that were read of it. Only behind the value in its
payload there may be more bytes. -/
theorem run_getPacket_eq_ok {p : Packet} (h : getPacket.run bs = .ok (p, rest)) :
    ∃ slack, p.payload.encode.length + slack.length < 2 ^ 32 ∧ bs = paddedPacket p slack ++ rest := by
  obtain ⟨_, mid, hneed, h⟩ := run_bind_eq_ok h
  obtain ⟨hheader, rfl⟩ := run_need_eq_ok hneed
  rw [packetHeaderLength] at hheader
  obtain ⟨key, afterKey, hkey, h⟩ := run_bind_eq_ok h
  obtain ⟨-, hkeyBytes, hkeyLength⟩ := run_takeNat_eq_ok (by omega) hkey
  obtain ⟨kind, afterKind, hkind, h⟩ := run_bind_eq_ok h
  obtain ⟨hkindBytes, hkindLength⟩ := run_getKind_eq_ok (by omega) hkind
  obtain ⟨weight, afterWeight, hweight, h⟩ := run_bind_eq_ok h
  obtain ⟨-, hweightBytes, hweightLength⟩ := run_takeNat_eq_ok (by omega) hweight
  obtain ⟨transient, afterTransient, htransient, h⟩ := run_bind_eq_ok h
  obtain ⟨htransientBytes, htransientLength⟩ := run_getFlag_eq_ok htransient
  obtain ⟨fromGateway, afterGateway, hgateway, h⟩ := run_bind_eq_ok h
  obtain ⟨hgatewayBytes, hgatewayLength⟩ := run_getFlag_eq_ok hgateway
  obtain ⟨n, payloadOnwards, hn, h⟩ := run_bind_eq_ok h
  obtain ⟨hfits, hnBytes, -⟩ := run_takeNat_eq_ok (by omega) hn
  obtain ⟨_, mid, hneed, h⟩ := run_bind_eq_ok h
  obtain ⟨hpayload, rfl⟩ := run_need_eq_ok hneed
  obtain ⟨raw, mid, hraw, h⟩ := run_bind_eq_ok h
  rw [run_takeRaw] at hraw
  cases hraw
  split at h
  · rename_i payload hdecode
    cases h
    obtain ⟨rfl, slack, hslack⟩ := Payload.decode_eq_ok hdecode
    have hlength := congrArg List.length hslack
    rw [List.length_take_of_le hpayload, List.length_append] at hlength
    have hn32 : n < 2 ^ 32 := by simpa using hfits
    refine ⟨slack, hlength ▸ hn32, ?_⟩
    rw [hkeyBytes, hkindBytes, hweightBytes, htransientBytes, hgatewayBytes, hnBytes]
    dsimp only [paddedPacket, Packet.kind]
    rw [← hlength, ← hslack]
    simp only [List.append_assoc, List.take_append_drop]
  · cases h

end Readers

/-- A frame is read from an envelope with the right length, checksum, version and type. -/
theorem decode_eq_ok {bs : Bytes} {f : Frame} (h : decode bs = .ok f) :
    bs.length = headerLength + bodyLength bs + trailerLength ∧
      Checksum.Ends (headerLength + bodyLength bs) bs ∧
      ∃ code rest type, bs.take (headerLength + bodyLength bs) = currentVersion :: code :: rest ∧
        FrameType.ofCode? code = some type ∧ decodeBody type (rest.drop 4) = .ok f := by
  unfold decode at h
  split at h
  · cases h
  dsimp only at h
  split at h
  · cases h
  split at h
  · cases h
  split at h
  · cases h
  rename_i hshort hlong hends
  refine ⟨by omega, (Decidable.not_not.1 hends : _ = _), ?_⟩
  split at h
  · split at h
    · cases h
    rename_i version code rest hfront hversion
    split at h
    · rename_i type htype
      refine ⟨code, rest, type, ?_, htype, h⟩
      rw [hfront, Decidable.not_not.1 hversion]
    · cases h
  · cases h

/-- A packet is read from a body that is as long as its own header says. -/
theorem decodeBody_packet_eq_ok {body : Bytes} {f : Frame} (h : decodeBody .packet body = .ok f) :
    ∃ p, f = .packet p ∧
      body.length = packetHeaderLength + ofLittleEndian ((body.drop 15).take 4) := by
  obtain ⟨⟨f', rest⟩, hrun, h⟩ := bind_eq_ok h
  obtain ⟨p, hpacket, rfl⟩ := run_map_eq_ok hrun
  obtain ⟨slack, hslack, hbody⟩ := run_getPacket_eq_ok hpacket
  cases rest with
  | nil =>
    cases h
    refine ⟨p, rfl, ?_⟩
    rw [hbody, List.append_nil, announced_paddedPacket,
      ofLittleEndian_littleEndian _ _ (by simpa using hslack), length_paddedPacket]
  | cons _ _ => cases h

end GroupReplication.Frame
