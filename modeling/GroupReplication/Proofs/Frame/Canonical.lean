/-
A frame is read from its own bytes, but for slack: bytes behind the value in the payload of a packet,
which the reader of the payload leaves. Everything else is spelled in one way, so what was read can be
written again, and is longer only by the slack than what is written.
-/
import GroupReplication.Proofs.Frame.Envelope
import GroupReplication.Proofs.Frame.Limits

namespace GroupReplication.Frame

def paddedPackets (ps : List Packet) (slacks : List Bytes) : Bytes :=
  (List.zipWith paddedPacket ps slacks).flatten

/-- The body of a frame with `slacks` behind the values in the payloads of its packets. -/
def paddedBody (slacks : List Bytes) : Frame → Except FrameFault Bytes
  | .packet p => .ok (paddedPackets [p] slacks)
  | .batch ps => .ok (littleEndian 4 ps.length ++ paddedPackets ps slacks)
  | f => f.encodeBody

/-! ## What the readers leave behind them -/

section Readers

variable {bs rest : Bytes}

theorem run_getText_eq_ok {field : FrameField} {s : String}
    (h : (getText field).run bs = .ok (s, rest)) : ∃ text, putText s = .ok text ∧ bs = text ++ rest := by
  obtain ⟨_, mid, hneed, h⟩ := run_bind_eq_ok h
  obtain ⟨hlength, rfl⟩ := run_need_eq_ok hneed
  obtain ⟨n, left, hn, h⟩ := run_bind_eq_ok h
  obtain ⟨hlt, hbs, -⟩ := run_takeNat_eq_ok hlength hn
  obtain ⟨_, mid, hneed, h⟩ := run_bind_eq_ok h
  obtain ⟨htext, rfl⟩ := run_need_eq_ok hneed
  obtain ⟨raw, mid, hraw, h⟩ := run_bind_eq_ok h
  rw [run_takeRaw] at hraw
  cases hraw
  split at h
  · rename_i hdecode
    cases h
    have hraw := Utf8.decode_eq_ok_iff.1 hdecode
    have hsize : (Utf8.encode s).length = n := by rw [← hraw, List.length_take_of_le htext]
    refine ⟨littleEndian 2 n ++ Utf8.encode s, ?_, ?_⟩
    · rw [putText, hsize, if_pos (by simpa using hlt)]
    · rw [hbs, ← hraw, List.append_assoc, List.take_append_drop]
  · cases h

theorem run_getState_eq_ok {state : Option Bytes} (h : getState.run bs = .ok (state, rest)) :
    ∃ blob, putState state = .ok blob ∧ bs = blob ++ rest := by
  obtain ⟨present, left, hflag, h⟩ := run_bind_eq_ok h
  obtain ⟨hbs, -⟩ := run_getFlag_eq_ok hflag
  cases present with
  | false =>
    cases h
    exact ⟨_, rfl, hbs⟩
  | true =>
    obtain ⟨_, mid, hneed, h⟩ := run_bind_eq_ok h
    obtain ⟨hlength, rfl⟩ := run_need_eq_ok hneed
    obtain ⟨n, blob, hn, h⟩ := run_bind_eq_ok h
    obtain ⟨hlt, hleft, -⟩ := run_takeNat_eq_ok hlength hn
    obtain ⟨_, mid, hneed, h⟩ := run_bind_eq_ok h
    obtain ⟨hblob, rfl⟩ := run_need_eq_ok hneed
    obtain ⟨raw, mid, hraw, h⟩ := run_bind_eq_ok h
    rw [run_takeRaw] at hraw
    cases hraw
    cases h
    have hsize := List.length_take_of_le hblob
    refine ⟨1 :: littleEndian 4 n ++ blob.take n, ?_, ?_⟩
    · rw [putState, hsize, if_pos (by simpa using hlt)]
    · rw [hbs, hleft, List.append_assoc, List.take_append_drop]
      rfl

theorem run_getPackets_eq_ok {previous : Option Nat} {count : Nat} {ps : List Packet}
    (h : (getPackets previous count).run bs = .ok (ps, rest)) :
    ps.length = count ∧ Increasing previous ps ∧
      ∃ slacks, slacks.length = ps.length ∧ bs = paddedPackets ps slacks ++ rest := by
  induction count generalizing previous bs ps with
  | zero =>
    cases h
    exact ⟨rfl, trivial, [], rfl, rfl⟩
  | succ count ih =>
    obtain ⟨p, mid, hp, h⟩ := run_bind_eq_ok h
    obtain ⟨slack, -, hbs⟩ := run_getPacket_eq_ok hp
    have hnext : (∀ k, previous = some k → k < p.key) ∧
        (getPackets (some p.key) count >>= fun ps => pure (p :: ps)).run mid = .ok (ps, rest) := by
      cases previous with
      | none => exact ⟨nofun, h⟩
      | some k =>
        dsimp only at h
        split at h
        · cases h
        · rename_i hk
          refine ⟨fun k' hk' => ?_, h⟩
          cases hk'
          omega
    obtain ⟨habove, h⟩ := hnext
    obtain ⟨later, left, hlater, h⟩ := run_bind_eq_ok h
    cases h
    obtain ⟨hcount, horder, slacks, hslacks, hmid⟩ := ih hlater
    refine ⟨by rw [List.length_cons, hcount], ⟨habove, horder⟩, slack :: slacks, ?_, ?_⟩
    · rw [List.length_cons, List.length_cons, hslacks]
    · rw [hbs, hmid, paddedPackets, paddedPackets, List.zipWith_cons_cons, List.flatten_cons,
        List.append_assoc]

theorem run_getBatch_eq_ok {ps : List Packet} (h : getBatch.run bs = .ok (ps, rest)) :
    Increasing none ps ∧ ∃ slacks, slacks.length = ps.length ∧
      bs = littleEndian 4 ps.length ++ paddedPackets ps slacks ++ rest := by
  obtain ⟨_, mid, hneed, h⟩ := run_bind_eq_ok h
  obtain ⟨hlength, rfl⟩ := run_need_eq_ok hneed
  obtain ⟨count, left, hn, h⟩ := run_bind_eq_ok h
  obtain ⟨-, hbs, -⟩ := run_takeNat_eq_ok hlength hn
  obtain ⟨seen, mid, hseen, h⟩ := run_bind_eq_ok h
  cases hseen
  split at h
  · cases h
  · obtain ⟨hcount, horder, slacks, hslacks, hleft⟩ := run_getPackets_eq_ok h
    refine ⟨horder, slacks, hslacks, ?_⟩
    rw [hbs, hleft, hcount, List.append_assoc]

theorem run_getRejectCode_eq_ok {code : RejectCode} (h : getRejectCode.run bs = .ok (code, rest)) :
    bs = code.code :: rest := by
  obtain ⟨_, mid, hneed, h⟩ := run_bind_eq_ok h
  obtain ⟨hbyte, rfl⟩ := run_need_eq_ok hneed
  obtain ⟨c, left, hc, h⟩ := run_bind_eq_ok h
  have hbs := run_takeByte_eq_ok hbyte hc
  split at h
  · rename_i hcode
    cases h
    rw [hbs, RejectCode.code_of_ofCode? hcode]
  · cases h

/-- A body stands in front with the frame that was read of it, up to slack. -/
theorem run_getBody_eq_ok {type : FrameType} {f : Frame} (h : (getBody type).run bs = .ok (f, rest)) :
    f.Ordered ∧ ∃ slacks body, slacks.length = f.packets.length ∧ f.paddedBody slacks = .ok body ∧
      bs = body ++ rest := by
  cases type with
  | connect =>
    obtain ⟨source, mid, hsource, h⟩ := run_bind_eq_ok h
    obtain ⟨group, left, hgroup, h⟩ := run_bind_eq_ok h
    cases h
    obtain ⟨front, hfront, hbs⟩ := run_getText_eq_ok hsource
    obtain ⟨back, hback, hmid⟩ := run_getText_eq_ok hgroup
    refine ⟨trivial, [], front ++ back, rfl, ?_, by rw [hbs, hmid, List.append_assoc]⟩
    show encodeBody (.connect source group) = _
    rw [encodeBody, hfront, ok_bind, hback]
    rfl
  | handshake =>
    obtain ⟨_, mid, hneed, h⟩ := run_bind_eq_ok h
    obtain ⟨hlength, rfl⟩ := run_need_eq_ok hneed
    obtain ⟨first, afterFirst, hfirst, h⟩ := run_bind_eq_ok h
    obtain ⟨lastConfirmed, afterKey, hkey, h⟩ := run_bind_eq_ok h
    obtain ⟨state, left, hstate, h⟩ := run_bind_eq_ok h
    cases h
    obtain ⟨hbs, hflag⟩ := run_getFlag_eq_ok hfirst
    obtain ⟨-, hafter, -⟩ := run_takeNat_eq_ok (by omega) hkey
    obtain ⟨blob, hblob, hafterKey⟩ := run_getState_eq_ok hstate
    refine ⟨trivial, [], putFlag first ++ littleEndian 8 lastConfirmed ++ blob, rfl, ?_, ?_⟩
    · show encodeBody (.handshake ⟨first, lastConfirmed, state⟩) = _
      rw [encodeBody, hblob]
      rfl
    · rw [hbs, hafter, hafterKey]
      simp only [List.append_assoc]
  | handshakeReply =>
    obtain ⟨_, mid, hneed, h⟩ := run_bind_eq_ok h
    obtain ⟨hlength, rfl⟩ := run_need_eq_ok hneed
    obtain ⟨startKey, afterKey, hkey, h⟩ := run_bind_eq_ok h
    obtain ⟨discard, afterFlag, hdiscard, h⟩ := run_bind_eq_ok h
    obtain ⟨state, left, hstate, h⟩ := run_bind_eq_ok h
    cases h
    obtain ⟨-, hbs, -⟩ := run_takeNat_eq_ok (by omega) hkey
    obtain ⟨hafterKey, -⟩ := run_getFlag_eq_ok hdiscard
    obtain ⟨blob, hblob, hafterFlag⟩ := run_getState_eq_ok hstate
    refine ⟨trivial, [], littleEndian 8 startKey ++ putFlag discard ++ blob, rfl, ?_, ?_⟩
    · show encodeBody (.handshakeReply ⟨startKey, discard, state⟩) = _
      rw [encodeBody, hblob]
      rfl
    · rw [hbs, hafterKey, hafterFlag]
      simp only [List.append_assoc]
  | packet =>
    obtain ⟨p, hpacket, rfl⟩ := run_map_eq_ok h
    obtain ⟨slack, -, hbs⟩ := run_getPacket_eq_ok hpacket
    refine ⟨trivial, [slack], _, rfl, rfl, ?_⟩
    rw [hbs]
    simp only [paddedPackets, List.zipWith_cons_cons, List.zipWith_nil_left, List.flatten_singleton]
  | batch =>
    obtain ⟨ps, hbatch, rfl⟩ := run_map_eq_ok h
    obtain ⟨horder, slacks, hslacks, hbs⟩ := run_getBatch_eq_ok hbatch
    exact ⟨horder, slacks, _, hslacks, rfl, hbs⟩
  | ack =>
    obtain ⟨_, mid, hneed, h⟩ := run_bind_eq_ok h
    obtain ⟨hlength, rfl⟩ := run_need_eq_ok hneed
    obtain ⟨key, left, hkey, h⟩ := run_bind_eq_ok h
    obtain ⟨-, hbs, -⟩ := run_takeNat_eq_ok hlength hkey
    cases h
    exact ⟨trivial, [], _, rfl, rfl, hbs⟩
  | reject =>
    obtain ⟨code, mid, hcode, h⟩ := run_bind_eq_ok h
    obtain ⟨message, left, hmessage, h⟩ := run_bind_eq_ok h
    cases h
    have hbs := run_getRejectCode_eq_ok hcode
    obtain ⟨text, htext, hmid⟩ := run_getText_eq_ok hmessage
    refine ⟨trivial, [], code.code :: text, rfl, ?_, by rw [hbs, hmid]; rfl⟩
    show encodeBody (.reject code message) = _
    rw [encodeBody, htext]
    rfl

end Readers

/-! ## Sizes -/

theorem payload_le_packetsSize {p : Packet} {ps : List Packet} (h : p ∈ ps) :
    p.payload.encode.length ≤ packetsSize ps := by
  induction ps with
  | nil => cases h
  | cons q qs ih =>
    rw [packetsSize, packetSize]
    rcases List.mem_cons.1 h with rfl | h
    · omega
    · have := ih h
      omega

theorem length_le_packetsSize (ps : List Packet) : ps.length ≤ packetsSize ps := by
  induction ps with
  | nil => exact Nat.le_refl 0
  | cons p ps ih =>
    rw [packetsSize, packetSize, packetHeaderLength, List.length_cons]
    omega

theorem length_paddedPackets {ps : List Packet} {slacks : List Bytes}
    (h : slacks.length = ps.length) :
    (paddedPackets ps slacks).length = packetsSize ps + slacks.flatten.length := by
  induction ps generalizing slacks with
  | nil =>
    rw [List.eq_nil_of_length_eq_zero h]
    rfl
  | cons p ps ih =>
    obtain ⟨slack, slacks, rfl⟩ := List.exists_cons_of_length_eq_add_one h
    have htail := ih (Nat.succ.inj h)
    rw [paddedPackets] at htail
    rw [paddedPackets, List.zipWith_cons_cons, List.flatten_cons, List.length_append, htail,
      length_paddedPacket, packetsSize, packetSize, List.flatten_cons, List.length_append]
    omega

/-! ## Without slack -/

theorem putPacket_eq_padded {p : Packet} {bs : Bytes} (h : putPacket p = .ok bs) :
    bs = paddedPacket p [] := by
  simp only [putPacket] at h
  split at h
  · cases h
    rw [paddedPacket, List.append_nil, List.length_nil, Nat.add_zero]
  · cases h

theorem putPackets_eq_padded {ps : List Packet} {slacks : List Bytes} {bs : Bytes}
    (h : putPackets ps = .ok bs) (hslacks : slacks.length = ps.length)
    (hempty : slacks.flatten = []) : bs = paddedPackets ps slacks := by
  induction ps generalizing slacks bs with
  | nil =>
    cases h
    rw [List.eq_nil_of_length_eq_zero hslacks]
    rfl
  | cons p ps ih =>
    obtain ⟨front, hfront, h⟩ := bind_eq_ok h
    obtain ⟨tail, htail, h⟩ := bind_eq_ok h
    cases h
    obtain ⟨slack, slacks, rfl⟩ := List.exists_cons_of_length_eq_add_one hslacks
    obtain ⟨rfl, hempty⟩ := List.append_eq_nil_iff.1 hempty
    rw [putPacket_eq_padded hfront, ih htail (Nat.succ.inj hslacks) hempty, paddedPackets,
      paddedPackets, List.zipWith_cons_cons, List.flatten_cons]

/-- Packets that could be read with slack can be written without. -/
theorem putPackets_of_padded {ps : List Packet} {slacks : List Bytes}
    (hslacks : slacks.length = ps.length) (hlength : (paddedPackets ps slacks).length < 2 ^ 32) :
    ∃ bs, putPackets ps = .ok bs ∧
      (paddedPackets ps slacks).length = bs.length + slacks.flatten.length ∧
      (slacks.flatten = [] → paddedPackets ps slacks = bs) := by
  have hsize := length_paddedPackets hslacks
  have hfits : ∀ p ∈ ps, p.payload.encode.length ≤ 2 ^ 32 - 1 := fun p hp => by
    have := payload_le_packetsSize hp
    omega
  obtain ⟨bs, hbs, hbsSize⟩ := putPackets_ok hfits
  exact ⟨bs, hbs, by omega, fun hempty => (putPackets_eq_padded hbs hslacks hempty).symm⟩

theorem encodeBody_of_padded {f : Frame} {slacks : List Bytes} {padded : Bytes}
    (h : f.paddedBody slacks = .ok padded) (hslacks : slacks.length = f.packets.length)
    (hlength : padded.length < 2 ^ 32) :
    ∃ body, f.encodeBody = .ok body ∧ padded.length = body.length + slacks.flatten.length ∧
      (slacks.flatten = [] → padded = body) := by
  cases f with
  | packet p =>
    cases h
    obtain ⟨bs, hbs, hsize, hempty⟩ := putPackets_of_padded hslacks hlength
    obtain ⟨body, hbody, hbs⟩ := bind_eq_ok hbs
    cases hbs
    rw [List.append_nil] at hsize hempty
    exact ⟨body, hbody, hsize, hempty⟩
  | batch ps =>
    cases h
    have hslacks : slacks.length = ps.length := hslacks
    have hsize := length_paddedPackets hslacks
    rw [List.length_append, length_littleEndian] at hlength
    obtain ⟨bs, hbs, hbsSize, hempty⟩ := putPackets_of_padded hslacks (by omega)
    have hcount := length_le_packetsSize ps
    have hwritten : encodeBody (.batch ps) = .ok (littleEndian 4 ps.length ++ bs) := by
      rw [encodeBody, putBatch, if_pos (by omega), hbs]
      rfl
    refine ⟨_, hwritten, ?_, fun h => by rw [hempty h]⟩
    rw [List.length_append, List.length_append, hbsSize, Nat.add_assoc]
  | _ =>
    obtain rfl := List.eq_nil_of_length_eq_zero hslacks
    exact ⟨padded, h, rfl, fun _ => rfl⟩

/-! ## Whole frames -/

/-- The bytes of a frame with `slacks` behind the values in the payloads of its packets. -/
def padded (f : Frame) (slacks : List Bytes) : Except FrameFault Bytes := do
  let front := sealed f.type (← f.paddedBody slacks)
  return front ++ littleEndian 4 (Checksum.crc32 front).toNat

/-- Bytes that are read as a frame are its body in an envelope. -/
theorem sealed_of_decode {bs : Bytes} {f : Frame} (h : decode bs = .ok f) :
    ∃ type body, body.length < 2 ^ 32 ∧ decodeBody type body = .ok f ∧
      bs = sealed type body ++ littleEndian 4 (Checksum.crc32 (sealed type body)).toNat := by
  obtain ⟨hlength, hends, code, rest, type, hfront, htype, hread⟩ := decode_eq_ok h
  have hrest : rest.length = 4 + bodyLength bs := by
    have := congrArg List.length hfront
    rw [List.length_take_of_le (by omega), headerLength] at this
    simp only [List.length_cons] at this
    omega
  have hannounced : bodyLength bs = ofLittleEndian (rest.take 4) := by
    have htake : (bs.drop 2).take 4 = ((bs.take (headerLength + bodyLength bs)).drop 2).take 4 := by
      rw [List.drop_take, List.take_take, Nat.min_eq_left (by rw [headerLength]; omega)]
    rw [bodyLength, htake, hfront]
    rfl
  have hsize : (rest.take 4).length = 4 := List.length_take_of_le (by omega)
  have hbody : (rest.drop 4).length = bodyLength bs := by
    rw [List.length_drop]
    omega
  have hsealed : bs.take (headerLength + bodyLength bs) = sealed type (rest.drop 4) := by
    have hlengthBytes := littleEndian_ofLittleEndian (rest.take 4)
    rw [hsize, ← hannounced, ← hbody] at hlengthBytes
    rw [hfront, sealed, hlengthBytes, List.take_append_drop, FrameType.code_of_ofCode? htype]
  have hbound := ofLittleEndian_lt (rest.take 4)
  rw [hsize, ← hannounced, ← hbody] at hbound
  refine ⟨type, rest.drop 4, by simpa using hbound, hread, ?_⟩
  rw [← hsealed]
  exact hends.eq_append hlength

/-- What is read as a frame can be written again, and is read as the same frame then. It is the frame's
own bytes with slack behind the values in the payloads, and these bytes themselves if it is no longer
than they are. -/
theorem read_is_canonical {bs : Bytes} {f : Frame} (h : decode bs = .ok f) :
    ∃ bs' slacks, f.encode = .ok bs' ∧ decode bs' = .ok f ∧ bs'.length ≤ bs.length ∧
      (bs'.length = bs.length → bs' = bs) ∧ slacks.length = f.packets.length ∧
      f.padded slacks = .ok bs ∧ bs.length = bs'.length + slacks.flatten.length := by
  obtain ⟨type, body, hlength, hread, hbs⟩ := sealed_of_decode h
  obtain ⟨⟨f', rest⟩, hrun, hread⟩ := bind_eq_ok hread
  cases rest with
  | cons _ _ => cases hread
  | nil =>
    cases hread
    obtain ⟨rfl, hfits⟩ := yields_getBody _ _ _ _ hrun
    obtain ⟨horder, slacks, slackened, hslacks, hpadded, hbody⟩ := run_getBody_eq_ok hrun
    rw [List.append_nil] at hbody
    subst hbody
    obtain ⟨plain, hplain, hsize, hempty⟩ := encodeBody_of_padded hpadded hslacks hlength
    have hencode : f.encode = .ok
        (sealed f.type plain ++ littleEndian 4 (Checksum.crc32 (sealed f.type plain)).toNat) := by
      rw [encode, hplain, ok_bind, if_pos (by omega)]
      rfl
    have hdiff : bs.length = (sealed f.type plain ++
        littleEndian 4 (Checksum.crc32 (sealed f.type plain)).toNat).length
          + slacks.flatten.length := by
      rw [hbs]
      simp only [List.length_append, length_sealed, length_littleEndian]
      omega
    refine ⟨_, slacks, hencode, decode_encode hencode hfits horder, by omega, fun heq => ?_, hslacks,
      by rw [padded, hpadded, hbs]; rfl, hdiff⟩
    rw [hbs, hempty (List.eq_nil_of_length_eq_zero (by omega))]

/-- A batch with a stray byte in the payload of its first packet. -/
theorem read_is_canonical_batch : ∃ bs, (batchOf [1, 2]).padded [[7], []] = .ok bs ∧
    decode bs = .ok (batchOf [1, 2]) ∧
      ∃ bs' slacks, (batchOf [1, 2]).encode = .ok bs' ∧ decode bs' = .ok (batchOf [1, 2]) ∧
        bs'.length ≤ bs.length ∧ (bs'.length = bs.length → bs' = bs) ∧ slacks.length = 2 ∧
          (batchOf [1, 2]).padded slacks = .ok bs ∧
            bs.length = bs'.length + slacks.flatten.length := by
  have hread : ((batchOf [1, 2]).padded [[7], []] >>= decode) = .ok (batchOf [1, 2]) :=
    Action.eq_ok_of_toOption (by decide +kernel)
  obtain ⟨bs, hbs, hread⟩ := bind_eq_ok hread
  exact ⟨bs, hbs, hread, read_is_canonical hread⟩

end GroupReplication.Frame
