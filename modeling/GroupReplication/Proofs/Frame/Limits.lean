/-
Which frames can be written, and what is read back of those that can. A frame is refused for the size
of one of its parts or of its body, and for nothing else; a batch out of order can be written but not
read. The other way round, whatever is read has numbers that fit their fields.
-/
import GroupReplication.Proofs.Frame.RoundTrip

namespace GroupReplication.Frame

/-! ## Sizes -/

def texts : Frame → List String
  | .connect source group => [source, group]
  | .reject _ message => [message]
  | _ => []

/-- The states that one end hands to the other. -/
def states : Frame → List Bytes
  | .handshake r => r.state.toList
  | .handshakeReply r => r.state.toList
  | _ => []

def packets : Frame → List Packet
  | .packet p => [p]
  | .batch ps => ps
  | _ => []

def textSize (s : String) : Nat := 2 + (Utf8.encode s).length

def stateSize (state : Option Bytes) : Nat := state.elim 1 (5 + ·.length)

def packetSize (p : Packet) : Nat := packetHeaderLength + p.payload.encode.length

def packetsSize : List Packet → Nat
  | [] => 0
  | p :: ps => packetSize p + packetsSize ps

/-- The number of bytes in the body of a frame. -/
def bodySize : Frame → Nat
  | .connect source group => textSize source + textSize group
  | .handshake r => 9 + stateSize r.state
  | .handshakeReply r => 9 + stateSize r.state
  | .packet p => packetSize p
  | .batch ps => 4 + packetsSize ps
  | .ack _ => 8
  | .reject _ message => 1 + textSize message

/-- The length of every part fits the field that announces it. -/
structure PartsFit (f : Frame) : Prop where
  texts : ∀ s ∈ f.texts, (Utf8.encode s).length ≤ 65535
  states : ∀ bs ∈ f.states, bs.length ≤ 2 ^ 32 - 1
  payloads : ∀ p ∈ f.packets, p.payload.encode.length ≤ 2 ^ 32 - 1
  count : f.packets.length ≤ 2 ^ 32 - 1

/-- Some part of the frame, or its body, is longer than its field can say. -/
def Oversized (f : Frame) : Prop :=
  (∃ s ∈ f.texts, 65535 < (Utf8.encode s).length) ∨ (∃ bs ∈ f.states, 2 ^ 32 - 1 < bs.length) ∨
    (∃ p ∈ f.packets, 2 ^ 32 - 1 < p.payload.encode.length) ∨ 2 ^ 32 - 1 < f.packets.length ∨
    2 ^ 32 - 1 < f.bodySize

theorem oversized_iff (f : Frame) : f.Oversized ↔ ¬ (f.PartsFit ∧ f.bodySize ≤ 2 ^ 32 - 1) := by
  constructor
  · rintro (⟨s, hs, h⟩ | ⟨bs, hbs, h⟩ | ⟨p, hp, h⟩ | h | h) ⟨hparts, hbody⟩
    · exact absurd (hparts.texts s hs) (by omega)
    · exact absurd (hparts.states bs hbs) (by omega)
    · exact absurd (hparts.payloads p hp) (by omega)
    · exact absurd hparts.count (by omega)
    · omega
  · intro h
    refine Classical.byContradiction fun hfits => ?_
    simp only [Oversized, not_or, not_exists, not_and, Nat.not_lt] at hfits
    obtain ⟨htexts, hstates, hpayloads, hcount, hbody⟩ := hfits
    exact h ⟨⟨htexts, hstates, hpayloads, hcount⟩, hbody⟩

/-! ## Writing -/

theorem putText_ok {s : String} (h : (Utf8.encode s).length ≤ 65535) :
    ∃ bs, putText s = .ok bs ∧ bs.length = textSize s := by
  refine ⟨_, if_pos (by omega), ?_⟩
  rw [List.length_append, length_littleEndian]
  rfl

theorem putText_eq_ok {s : String} {bs : Bytes} (h : putText s = .ok bs) :
    (Utf8.encode s).length ≤ 65535 := by
  simp only [putText] at h
  split at h
  · omega
  · cases h

theorem putState_ok {state : Option Bytes} (h : ∀ bs ∈ state, bs.length ≤ 2 ^ 32 - 1) :
    ∃ bs, putState state = .ok bs ∧ bs.length = stateSize state := by
  cases state with
  | none => exact ⟨_, rfl, rfl⟩
  | some blob =>
    have hlen := h blob rfl
    refine ⟨_, if_pos (by omega), ?_⟩
    simp only [List.cons_append, List.length_cons, List.length_append, length_littleEndian, stateSize,
      Option.elim_some]
    omega

theorem putState_eq_ok {state : Option Bytes} {bs : Bytes} (h : putState state = .ok bs) :
    ∀ blob ∈ state, blob.length ≤ 2 ^ 32 - 1 := by
  rintro blob rfl
  simp only [putState] at h
  split at h
  · omega
  · cases h

theorem putPacket_ok {p : Packet} (h : p.payload.encode.length ≤ 2 ^ 32 - 1) :
    ∃ bs, putPacket p = .ok bs ∧ bs.length = packetSize p := by
  have hok : ∃ bs, putPacket p = .ok bs := ⟨_, if_pos (by omega)⟩
  obtain ⟨bs, hbs⟩ := hok
  exact ⟨bs, hbs, length_putPacket hbs⟩

theorem putPacket_eq_ok {p : Packet} {bs : Bytes} (h : putPacket p = .ok bs) :
    p.payload.encode.length ≤ 2 ^ 32 - 1 := by
  simp only [putPacket] at h
  split at h
  · omega
  · cases h

theorem putPackets_ok {ps : List Packet} (h : ∀ p ∈ ps, p.payload.encode.length ≤ 2 ^ 32 - 1) :
    ∃ bs, putPackets ps = .ok bs ∧ bs.length = packetsSize ps := by
  induction ps with
  | nil => exact ⟨[], rfl, rfl⟩
  | cons p ps ih =>
    obtain ⟨front, hfront, hfrontLen⟩ := putPacket_ok (h p (List.mem_cons_self ..))
    obtain ⟨rest, hrest, hrestLen⟩ := ih fun q hq => h q (List.mem_cons_of_mem _ hq)
    refine ⟨front ++ rest, by rw [putPackets, hfront, ok_bind, hrest]; rfl, ?_⟩
    rw [List.length_append, hfrontLen, hrestLen, packetsSize]

theorem putPackets_eq_ok {ps : List Packet} {bs : Bytes} (h : putPackets ps = .ok bs) :
    ∀ p ∈ ps, p.payload.encode.length ≤ 2 ^ 32 - 1 := by
  induction ps generalizing bs with
  | nil => intro p hp; cases hp
  | cons p ps ih =>
    obtain ⟨front, hfront, h⟩ := bind_eq_ok h
    obtain ⟨rest, hrest, -⟩ := bind_eq_ok h
    intro q hq
    rcases List.mem_cons.1 hq with rfl | hq
    · exact putPacket_eq_ok hfront
    · exact ih hrest q hq

/-- A frame whose parts fit has a body. -/
theorem encodeBody_ok {f : Frame} (h : f.PartsFit) :
    ∃ body, f.encodeBody = .ok body ∧ body.length = f.bodySize := by
  cases f with
  | connect source group =>
    obtain ⟨front, hfront, hfrontLen⟩ := putText_ok (h.texts source (by simp [texts]))
    obtain ⟨rest, hrest, hrestLen⟩ := putText_ok (h.texts group (by simp [texts]))
    refine ⟨front ++ rest, by rw [encodeBody, hfront, ok_bind, hrest]; rfl, ?_⟩
    rw [List.length_append, hfrontLen, hrestLen, bodySize]
  | handshake r =>
    obtain ⟨state, hstate, hlen⟩ := putState_ok fun bs hbs => h.states bs (by simpa [states] using hbs)
    refine ⟨_, by rw [encodeBody, hstate]; rfl, ?_⟩
    simp only [List.length_append, length_putFlag, length_littleEndian, hlen, bodySize]
  | handshakeReply r =>
    obtain ⟨state, hstate, hlen⟩ := putState_ok fun bs hbs => h.states bs (by simpa [states] using hbs)
    refine ⟨_, by rw [encodeBody, hstate]; rfl, ?_⟩
    simp only [List.length_append, length_putFlag, length_littleEndian, hlen, bodySize]
  | packet p => exact putPacket_ok (h.payloads p (by simp [packets]))
  | batch ps =>
    have hcount : ps.length < 2 ^ 32 := by
      have : ps.length ≤ 2 ^ 32 - 1 := h.count
      omega
    obtain ⟨bs, hbs, hlen⟩ := putPackets_ok h.payloads
    refine ⟨littleEndian 4 ps.length ++ bs, ?_, ?_⟩
    · rw [encodeBody, putBatch, if_pos hcount, show putPackets ps = .ok bs from hbs]
      rfl
    · rw [List.length_append, length_littleEndian, hlen, bodySize]
      rfl
  | ack key => exact ⟨_, rfl, length_littleEndian ..⟩
  | reject code message =>
    obtain ⟨text, htext, hlen⟩ := putText_ok (h.texts message (by simp [texts]))
    refine ⟨code.code :: text, by rw [encodeBody, htext]; rfl, ?_⟩
    rw [List.length_cons, hlen, bodySize, Nat.add_comm]

/-- The parts of a frame that has a body fit. -/
theorem partsFit_of_encodeBody {f : Frame} {body : Bytes} (h : f.encodeBody = .ok body) :
    f.PartsFit := by
  cases f with
  | connect source group =>
    obtain ⟨front, hfront, h⟩ := bind_eq_ok h
    obtain ⟨rest, hrest, -⟩ := bind_eq_ok h
    refine ⟨fun s hs => ?_, by simp [states], by simp [packets], by simp [packets]⟩
    obtain rfl | rfl : s = source ∨ s = group := by simpa [texts] using hs
    · exact putText_eq_ok hfront
    · exact putText_eq_ok hrest
  | handshake r | handshakeReply r =>
    obtain ⟨state, hstate, -⟩ := bind_eq_ok h
    exact ⟨by simp [texts], by simpa [states] using putState_eq_ok hstate, by simp [packets],
      by simp [packets]⟩
  | packet p =>
    exact ⟨by simp [texts], by simp [states], by simpa [packets] using putPacket_eq_ok h,
      by simp [packets]⟩
  | batch ps =>
    obtain ⟨hcount, front, hfront, -⟩ := putBatch_eq_ok h
    refine ⟨by simp [texts], by simp [states], putPackets_eq_ok hfront, ?_⟩
    show ps.length ≤ _
    omega
  | ack key => exact ⟨by simp [texts], by simp [states], by simp [packets], by simp [packets]⟩
  | reject code message =>
    obtain ⟨text, htext, -⟩ := bind_eq_ok h
    refine ⟨fun s hs => ?_, by simp [states], by simp [packets], by simp [packets]⟩
    rw [List.mem_singleton.1 hs]
    exact putText_eq_ok htext

/-- A frame cannot be written exactly when some part of it is too long. -/
theorem encode_error_iff (f : Frame) : (∃ fault, f.encode = .error fault) ↔ f.Oversized := by
  rw [oversized_iff]
  constructor
  · rintro ⟨fault, hfault⟩ ⟨hparts, hsize⟩
    obtain ⟨body, hbody, hlen⟩ := encodeBody_ok hparts
    rw [encode, hbody, ok_bind, if_pos (by omega)] at hfault
    cases hfault
  · intro hnot
    cases hencode : f.encode with
    | error fault => exact ⟨fault, rfl⟩
    | ok bs =>
      obtain ⟨body, hbody, hbound, -⟩ := encode_eq_ok hencode
      have hparts := partsFit_of_encodeBody hbody
      obtain ⟨body', hbody', hlen'⟩ := encodeBody_ok hparts
      rw [hbody] at hbody'
      cases hbody'
      exact absurd ⟨hparts, by omega⟩ hnot

/-! ## Batches out of order -/

/-- The first packet that does not come behind the one before it is refused. -/
theorem getPackets_unordered {ps : List Packet} {bs : Bytes} {previous : Option Nat}
    (h : putPackets ps = .ok bs) (hfits : ∀ p ∈ ps, p.Fits) (horder : ¬ Increasing previous ps)
    (rest : Bytes) : ∃ key last, key ≤ last ∧ (getPackets previous ps.length).run (bs ++ rest)
      = .error (.malformed (.keysNotIncreasing key last)) := by
  induction ps generalizing bs previous with
  | nil => exact absurd trivial horder
  | cons p ps ih =>
    obtain ⟨front, hfront, h⟩ := bind_eq_ok h
    obtain ⟨tail, htail, h⟩ := bind_eq_ok h
    cases h
    have hread := reads_getPacket hfront (hfits p (List.mem_cons_self ..)) (tail ++ rest)
    rw [List.length_cons, getPackets, List.append_assoc, StateT.run_bind, hread, ok_bind]
    have hlater : ¬ Increasing (some p.key) ps → ∃ key last, key ≤ last ∧
        (getPackets (some p.key) ps.length >>= fun qs => pure (p :: qs)).run (tail ++ rest)
          = .error (.malformed (.keysNotIncreasing key last)) := fun hlater => by
      obtain ⟨key, last, hle, hrun⟩ :=
        ih htail (fun q hq => hfits q (List.mem_cons_of_mem _ hq)) hlater
      exact ⟨key, last, hle, by rw [StateT.run_bind, hrun]; rfl⟩
    cases previous with
    | none => exact hlater fun hrest => horder ⟨nofun, hrest⟩
    | some k =>
      by_cases hk : p.key ≤ k
      · refine ⟨p.key, k, hk, ?_⟩
        simp only [if_pos hk]
        rfl
      · simp only [if_neg hk]
        refine hlater fun hrest => horder ⟨fun k' hk' => ?_, hrest⟩
        cases hk'
        omega

/-- What is written of a batch out of order is refused by whoever reads it. -/
theorem decode_unordered {f : Frame} {bs : Bytes} (h : f.encode = .ok bs) (hfits : f.Fits)
    (horder : ¬ f.Ordered) :
    ∃ key last, key ≤ last ∧ decode bs = .error (.malformed (.keysNotIncreasing key last)) := by
  obtain ⟨body, hbody, hlen, rfl⟩ := encode_eq_ok h
  rw [decode_sealed hlen, decodeBody]
  cases f with
  | batch ps =>
    obtain ⟨hcount, front, hfront, rfl⟩ := putBatch_eq_ok hbody
    obtain ⟨key, last, hle, hrun⟩ := getPackets_unordered hfront hfits horder []
    rw [List.append_nil] at hrun
    refine ⟨key, last, hle, ?_⟩
    rw [show getBody (type (.batch ps)) = .batch <$> getBatch from rfl, StateT.run_map,
      run_getBatch_of hfront hcount, hrun]
    rfl
  | _ => exact absurd trivial horder

/-! ## What is read -/

/-- Whatever the reader takes off an input has this property. -/
def Yields {ε α : Type} (r : StateT Bytes (Except ε) α) (P : α → Prop) : Prop :=
  ∀ bs a rest, r.run bs = .ok (a, rest) → P a

namespace Yields

variable {ε α β : Type} {r : StateT Bytes (Except ε) α} {P : α → Prop} {Q : β → Prop}

theorem pure {a : α} (h : P a) : Yields (ε := ε) (Pure.pure a) P := by
  intro bs b rest hrun
  cases hrun
  exact h

theorem throw (e : ε) : Yields (MonadExcept.throw e : StateT Bytes (Except ε) α) P := by
  intro bs a rest hrun
  cases hrun

theorem bind {f : α → StateT Bytes (Except ε) β} (h : Yields r P) (hf : ∀ a, P a → Yields (f a) Q) :
    Yields (r >>= f) Q := by
  intro bs b rest hrun
  rw [StateT.run_bind] at hrun
  obtain ⟨⟨a, more⟩, hfirst, hrun⟩ := bind_eq_ok hrun
  exact hf a (h _ _ _ hfirst) _ _ _ hrun

/-- A step whose value does not matter. -/
theorem after {f : α → StateT Bytes (Except ε) β} (hf : ∀ a, Yields (f a) Q) : Yields (r >>= f) Q :=
  bind (P := fun _ => True) (fun _ _ _ _ => trivial) fun a _ => hf a

/-- A check either fails or goes on. -/
theorem check {c : Prop} [Decidable c] {e : ε} {r' : Unit → StateT Bytes (Except ε) α}
    (h : Yields (r' ()) P) :
    Yields (if c then (MonadExcept.throw e : StateT Bytes (Except ε) Unit) >>= r' else r' ()) P := by
  split
  · exact after fun _ => h
  · exact h

theorem map {f : α → β} (h : Yields r P) (hf : ∀ a, P a → Q (f a)) : Yields (f <$> r) Q := by
  rw [map_eq_pure_bind]
  exact h.bind fun a ha => Yields.pure (hf a ha)

end Yields

theorem yields_takeNat (width : Nat) : Yields (takeNat width) (· < 256 ^ width) := by
  have hraw : Yields (takeRaw width) (·.length ≤ width) := by
    intro bs a rest hrun
    have hsplit : bs.splitAt width = (a, rest) := by simpa [takeRaw, StateT.run] using hrun
    rw [List.splitAt_eq] at hsplit
    cases hsplit
    exact List.length_take_le ..
  refine hraw.bind fun bs hbs => Yields.pure ?_
  exact Nat.lt_of_lt_of_le (ofLittleEndian_lt bs) (Nat.pow_le_pow_right (by decide) hbs)

theorem yields_getPacket : Yields getPacket Packet.Fits := by
  refine Yields.after fun _ => (yields_takeNat 8).bind fun key hkey => Yields.after fun _ =>
    (yields_takeNat 4).bind fun weight hweight => Yields.after fun _ => Yields.after fun _ =>
      Yields.after fun _ => Yields.after fun _ => Yields.after fun bs => ?_
  split
  · exact Yields.pure ⟨by simpa using hkey, by simpa using hweight⟩
  · exact Yields.throw _

theorem yields_getPackets (previous : Option Nat) (count : Nat) :
    Yields (getPackets previous count) (∀ p ∈ ·, p.Fits) := by
  induction count generalizing previous with
  | zero => exact Yields.pure (by simp)
  | succ count ih =>
    refine yields_getPacket.bind fun p hp => ?_
    have hrest : Yields (getPackets (some p.key) count >>= fun ps => pure (p :: ps))
        (∀ q ∈ ·, q.Fits) :=
      (ih (some p.key)).bind fun ps hps => Yields.pure (List.forall_mem_cons.2 ⟨hp, hps⟩)
    cases previous with
    | none => exact hrest
    | some k => exact Yields.check hrest

/-- The body of a frame is read as a frame of the type that was announced. -/
theorem yields_getBody (type : FrameType) :
    Yields (getBody type) fun f => f.type = type ∧ f.Fits := by
  cases type with
  | connect => exact Yields.after fun _ => Yields.after fun _ => Yields.pure ⟨rfl, trivial⟩
  | handshake =>
    exact Yields.after fun _ => Yields.after fun _ => (yields_takeNat 8).bind fun key hkey =>
      Yields.after fun _ => Yields.pure ⟨rfl, hkey⟩
  | handshakeReply =>
    exact Yields.after fun _ => (yields_takeNat 8).bind fun key hkey => Yields.after fun _ =>
      Yields.after fun _ => Yields.pure ⟨rfl, hkey⟩
  | packet => exact yields_getPacket.map fun p hp => ⟨rfl, hp⟩
  | batch =>
    have hbatch : Yields getBatch (∀ p ∈ ·, p.Fits) :=
      Yields.after fun _ => Yields.after fun count => Yields.after fun rest =>
        Yields.check (yields_getPackets none count)
    exact hbatch.map fun ps hps => ⟨rfl, hps⟩
  | ack =>
    exact Yields.after fun _ => (yields_takeNat 8).bind fun key hkey => Yields.pure ⟨rfl, hkey⟩
  | reject => exact Yields.after fun _ => Yields.after fun _ => Yields.pure ⟨rfl, trivial⟩

/-- What is written for a frame is read as a frame of the same type, whatever numbers were cut to their
fields. -/
theorem decode_of_encode {f f' : Frame} {bs : Bytes} (h : f.encode = .ok bs)
    (hread : decode bs = .ok f') : f'.type = f.type ∧ f'.Fits := by
  obtain ⟨body, -, hlen, rfl⟩ := encode_eq_ok h
  rw [decode_sealed hlen] at hread
  obtain ⟨⟨frame, rest⟩, hbody, hread⟩ := bind_eq_ok hread
  cases hempty : rest.isEmpty with
  | true =>
    simp only [hempty, if_true] at hread
    cases hread
    exact yields_getBody _ _ _ _ hbody
  | false =>
    simp only [hempty, Bool.false_eq_true, if_false] at hread
    cases hread

/-! ## Round trip -/

/-- A frame whose numbers fit their fields cannot be written exactly when one of its parts or its body
is too long, and what can be written is read as the same frame. Only a batch whose keys do not
increase is refused by whoever reads it. -/
theorem written_is_read (f : Frame) (hfits : f.Fits) :
    ((∃ fault, f.encode = .error fault) ↔ f.Oversized) ∧
      ∀ bs, f.encode = .ok bs → (f.Ordered → decode bs = .ok f) ∧
        (¬ f.Ordered → (∃ ps, f = .batch ps) ∧
          ∃ key last, key ≤ last ∧ decode bs = .error (.malformed (.keysNotIncreasing key last))) := by
  refine ⟨encode_error_iff f, fun bs hbs => ⟨decode_encode hbs hfits, fun horder =>
    ⟨?_, decode_unordered hbs hfits horder⟩⟩⟩
  cases f with
  | batch ps => exact ⟨ps, rfl⟩
  | _ => exact absurd trivial horder

/-- A batch of empty packets with these keys. -/
def batchOf (keys : List Nat) : Frame := .batch (keys.map fun key => ⟨key, 1, false, false, .batch []⟩)

/-- Two packets are read back in their order; the other way round they are refused. -/
theorem written_is_read_batch :
    (∃ bs, (batchOf [1, 2]).encode = .ok bs ∧ decode bs = .ok (batchOf [1, 2])) ∧
      ∃ bs, (batchOf [2, 1]).encode = .ok bs ∧
        ∃ key last, key ≤ last ∧ decode bs = .error (.malformed (.keysNotIncreasing key last)) := by
  have hwritten : ∀ keys, (batchOf keys).encode.toOption.isSome = true →
      ∃ bs, (batchOf keys).encode = .ok bs := fun keys hsome => by
    cases hencode : (batchOf keys).encode with
    | error fault =>
      rw [hencode] at hsome
      cases hsome
    | ok bs => exact ⟨bs, rfl⟩
  obtain ⟨bs, hbs⟩ := hwritten [1, 2] (by decide +kernel)
  obtain ⟨bs', hbs'⟩ := hwritten [2, 1] (by decide +kernel)
  refine ⟨⟨bs, hbs, ((written_is_read (batchOf [1, 2]) ?_).2 bs hbs).1 ?_⟩, bs', hbs',
    (((written_is_read (batchOf [2, 1]) ?_).2 bs' hbs').2 ?_).2⟩
  · simp [batchOf, Fits, Packet.Fits]
  · simp [batchOf, Ordered, Increasing]
  · simp [batchOf, Fits, Packet.Fits]
  · simp [batchOf, Ordered, Increasing]

end GroupReplication.Frame
