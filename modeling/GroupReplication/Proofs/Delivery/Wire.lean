/-
A loopback whose link can be cut before any frame, and what an exchange over it comes to. The far side
either never sees a frame, or reads and answers it (`Wire.Sent`); the answer can get lost only if it
cannot be written.
-/
import GroupReplication.Delivery.Worker
import GroupReplication.Proofs.Frame.Limits

namespace GroupReplication

open GroupReplication.Action

namespace LoopbackEnds

variable {ρ : Type}

theorem severed_closeSession (e : LoopbackEnds ρ) : e.closeSession.link.severed = e.link.severed := by
  unfold closeSession
  cases e.link.session <;> rfl

theorem session_closeSession (e : LoopbackEnds ρ) : e.closeSession.link.session = none := by
  unfold closeSession
  cases hsession : e.link.session with
  | none => exact hsession
  | some s => rfl

/-- The loopback with a new connection. -/
def opened (e : LoopbackEnds ρ) : LoopbackEnds ρ :=
  { e with link := { e.link with session := some .new, connections := e.link.connections + 1 } }

/-- The loopback after a frame passed that left the connection and the group like this. -/
def took (s : Session) (g : TargetGroup ρ) (e : LoopbackEnds ρ) : LoopbackEnds ρ :=
  ⟨{ e.link with session := some s, frames := e.link.frames + 1 }, g⟩

theorem perform_connect (e : LoopbackEnds ρ) : connect.perform e =
    if e.link.severed then (.error (.transport .severed), e.closeSession)
    else (.ok (), e.closeSession.opened) := by
  rw [connect, perform_modify_bind, perform_get_bind, severed_closeSession]
  split
  · exact perform_throw_bind ..
  · rfl

/-- A frame that is sent over a cut link closes the connection. -/
theorem perform_send_severed (A : Applier ρ) (bs : Bytes) {e : LoopbackEnds ρ}
    (h : e.link.severed = true) :
    (send A bs).perform e = (.error (.transport .severed), e.closeSession) := by
  rw [send, perform_get_bind, h]
  rfl

theorem perform_send_none (A : Applier ρ) (bs : Bytes) {e : LoopbackEnds ρ}
    (h : e.link.severed = false) (hnone : e.link.session = none) :
    (send A bs).perform e = (.error (.transport .notConnected), e) := by
  rw [send, perform_get_bind, h, hnone]
  rfl

/-- What the far side cannot read does not reach the group. -/
theorem perform_send_unread (A : Applier ρ) {bs : Bytes} {fault : FrameFault}
    (hbs : Frame.decode bs = .error fault) {e : LoopbackEnds ρ} {s : Session}
    (h : e.link.severed = false) (hsome : e.link.session = some s) :
    (send A bs).perform e = (.error (.protocol fault), e) := by
  rw [send, perform_get_bind, h, hsome]
  simp only [Bool.false_eq_true, if_false]
  rw [hbs]
  rfl

/-- Otherwise the far side takes the frame in, and its answer comes back if it can be written. -/
theorem perform_send_some (A : Applier ρ) {bs : Bytes} {f : Frame} (hbs : Frame.decode bs = .ok f)
    {e : LoopbackEnds ρ} {s s' : Session} {reply : Frame} {g : TargetGroup ρ}
    (h : e.link.severed = false) (hsome : e.link.session = some s)
    (hreceive : s.receive A f e.group = (reply, s', g)) :
    (send A bs).perform e = (reply.encode.mapError .protocol, e.took s' g) := by
  rw [send, perform_get_bind, h, hsome]
  simp only [Bool.false_eq_true, if_false]
  rw [hbs]
  refine (perform_bind_ok rfl).trans ?_
  rw [hreceive]
  rfl

end LoopbackEnds

/-- A loopback that is watched, and cut when its time comes. -/
structure Wire (ρ : Type) where
  ends : LoopbackEnds ρ
  /-- For each connect and each frame to come, whether the link is cut before it. -/
  cuts : List Bool
  /-- Where the last handshake that discarded the copy let delivery start, and what it left of the
  copy. -/
  restart? : Option (Nat × ρ)

namespace Wire

variable {ρ α : Type}

def new (cuts : List Bool) (g : TargetGroup ρ) : Wire ρ := ⟨⟨.new, g⟩, cuts, none⟩

def onEnds (act : Action (LoopbackEnds ρ) α) : Action (Wire ρ) α :=
  act.within (·.ends) fun ends w => { w with ends }

def setSevered (severed : Bool) (w : Wire ρ) : Wire ρ := { w with ends.link.severed := severed }

/-- The wire when a connect or a frame comes next. -/
def cutNext (w : Wire ρ) : Wire ρ :=
  { w.setSevered (w.ends.link.severed || w.cuts.headD false) with cuts := w.cuts.tail }

/-- Where delivery starts anew, if this is a handshake that discarded the copy. -/
def restartsAt? : (sent reply : Frame) → Option Nat
  | .handshakeReply response, .ack _ =>
    if response.discardLocalState then some response.startKey else none
  | _, _ => none

/-- The wire after this exchange of frames was seen on it. -/
def witness (sent reply : Frame) (w : Wire ρ) : Wire ρ :=
  { w with restart? := ((restartsAt? sent reply).map (·, w.ends.group.replica)).or w.restart? }

/-- The wire after these bytes were seen on it. -/
def watch (sent answer : Bytes) (w : Wire ρ) : Wire ρ :=
  match Frame.decode sent, Frame.decode answer with
  | .ok f, .ok reply => w.witness f reply
  | _, _ => w

end Wire

/-- The loopback as a transport, with its link cut before the frames that `cuts` says. -/
def Transport.wire {ρ : Type} (A : Applier ρ) : Transport (Wire ρ) where
  connect := do
    modify Wire.cutNext
    Wire.onEnds (Transport.loopback A).connect
  send bs := do
    modify Wire.cutNext
    let answer ← Wire.onEnds ((Transport.loopback A).send bs)
    modify (Wire.watch bs answer)
    return answer
  close := Wire.onEnds (Transport.loopback A).close

namespace Wire

variable {ρ : Type} {A : Applier ρ} {w : Wire ρ} {ends : LoopbackEnds ρ} {bs answer : Bytes}

theorem perform_send_error {e : Error}
    (h : ((Transport.loopback A).send bs).perform w.cutNext.ends = (.error e, ends)) :
    ((Transport.wire A).send bs).perform w = (.error e, { w.cutNext with ends }) := by
  have hsend : (onEnds ((Transport.loopback A).send bs)).perform w.cutNext
      = (.error e, { w.cutNext with ends }) := by rw [onEnds, perform_within, h]
  exact (perform_modify_bind ..).trans (perform_bind_error hsend)

theorem perform_send_ok
    (h : ((Transport.loopback A).send bs).perform w.cutNext.ends = (.ok answer, ends)) :
    ((Transport.wire A).send bs).perform w
      = (.ok answer, { w.cutNext with ends }.watch bs answer) := by
  have hsend : (onEnds ((Transport.loopback A).send bs)).perform w.cutNext
      = (.ok answer, { w.cutNext with ends }) := by rw [onEnds, perform_within, h]
  exact (perform_modify_bind ..).trans ((perform_bind_ok hsend).trans rfl)

theorem perform_connect (A : Applier ρ) (w : Wire ρ) : (Transport.wire A).connect.perform w =
    if w.cutNext.ends.link.severed then
      (.error (.transport .severed), { w.cutNext with ends := w.cutNext.ends.closeSession })
    else (.ok (), { w.cutNext with ends := w.cutNext.ends.closeSession.opened }) := by
  refine (perform_modify_bind ..).trans ?_
  rw [onEnds, perform_within, show (Transport.loopback A).connect = LoopbackEnds.connect from rfl,
    LoopbackEnds.perform_connect]
  split <;> rfl

/-- Only an acknowledged handshake starts delivery anew. -/
theorem witness_of_not_ack {sent reply : Frame} (h : ∀ key, reply ≠ .ack key) :
    w.witness sent reply = w := by
  have hnone : restartsAt? sent reply = none := by
    cases reply with
    | ack key => exact absurd rfl (h key)
    | _ => cases sent <;> rfl
  rw [witness, hnone]
  rfl

end Wire

/-- What the far side reads of a frame has its type and numbers that fit their fields; it is the same
frame if that could be written as it is. -/
structure Frame.ReadAs (f f' : Frame) : Prop where
  type : f'.type = f.type
  fits : f'.Fits
  same : f.Fits → f.Ordered → f' = f

theorem Frame.readAs {f f' : Frame} {bs : Bytes} (h : f.encode = .ok bs) (hread : decode bs = .ok f') :
    f.ReadAs f' := by
  obtain ⟨htype, hfits⟩ := decode_of_encode h hread
  refine ⟨htype, hfits, fun hfits hordered => ?_⟩
  rw [decode_encode h hfits hordered] at hread
  exact (Except.ok.inj hread).symm

/-- What comes of a frame that is sent, and of the wire. It is kept back, or lost with the connection,
or taken in as it was read; and then the answer comes back, unless it cannot be written. -/
inductive Wire.Sent {ρ : Type} (A : Applier ρ) (f : Frame) (w : Wire ρ) :
    Except Error Frame → Wire ρ → Prop where
  | kept {e : Error} {w' : Wire ρ} (session : w'.ends.link.session = w.ends.link.session)
      (group : w'.ends.group = w.ends.group) (restart : w'.restart? = w.restart?) :
      Sent A f w (.error e) w'
  | lost {e : Error} : Sent A f w (.error e) { w.cutNext with ends := w.cutNext.ends.closeSession }
  | taken {s s' : Session} {f' reply : Frame} {g : TargetGroup ρ} {result : Except Error Frame}
      (read : f.ReadAs f') (session : w.ends.link.session = some s)
      (receive : s.receive A f' w.ends.group = (reply, s', g))
      (answer : result = .ok reply ∨ (∃ e, result = .error e) ∧ ∀ key, reply ≠ .ack key) :
      Sent A f w result ({ w.cutNext with ends := w.cutNext.ends.took s' g }.witness f' reply)

/-- An acknowledgement can always be written. -/
theorem Frame.encode_ack (key : Nat) : ∃ bs, (Frame.ack key).encode = .ok bs := by
  let body := sealed .ack (littleEndian 8 key)
  exact ⟨body ++ littleEndian 4 (Checksum.crc32 body).toNat, rfl⟩

namespace Delivery

variable {ρ : Type}

/-- An exchange comes to one of these, if answers can be read back. -/
theorem exchange_spec (A : Applier ρ) (f : Frame) (d : Delivery (Wire ρ))
    (hreply : ∀ s f', d.link.ends.link.session = some s → f.ReadAs f' →
      (s.receive A f' d.link.ends.group).1.Fits ∧ (s.receive A f' d.link.ends.group).1.Ordered) :
    ∃ result w, (exchange (.wire A) f).perform d = (result, { d with link := w }) ∧
      d.link.Sent A f result w := by
  cases hencode : f.encode with
  | error fault =>
    refine ⟨.error (.protocol fault), d.link, ?_, .kept rfl rfl rfl⟩
    rw [exchange, hencode]
    rfl
  | ok bs =>
    have hfailed : ∀ {e ends}, (LoopbackEnds.send A bs).perform d.link.cutNext.ends = (.error e, ends) →
        (exchange (.wire A) f).perform d
          = (.error e, { d with link := { d.link.cutNext with ends } }) := by
      intro e ends h
      rw [exchange, hencode]
      refine (perform_bind_ok rfl).trans (perform_bind_error ?_)
      rw [onLink, perform_within, Wire.perform_send_error h]
    cases hsevered : d.link.cutNext.ends.link.severed with
    | true => exact ⟨_, _, hfailed (LoopbackEnds.perform_send_severed A bs hsevered), .lost⟩
    | false =>
      cases hsession : d.link.ends.link.session with
      | none =>
        exact ⟨_, _, hfailed (LoopbackEnds.perform_send_none A bs hsevered hsession), .kept rfl rfl rfl⟩
      | some s =>
        cases hdecode : Frame.decode bs with
        | error fault =>
          exact ⟨_, _, hfailed (LoopbackEnds.perform_send_unread A hdecode hsevered hsession),
            .kept rfl rfl rfl⟩
        | ok f' =>
          have hread := Frame.readAs hencode hdecode
          obtain ⟨⟨reply, s', g⟩, hreceive⟩ :
            ∃ out, s.receive A f' d.link.ends.group = out := ⟨_, rfl⟩
          have hsent := LoopbackEnds.perform_send_some A hdecode hsevered hsession hreceive
          have hfit := hreply s f' hsession hread
          rw [hreceive] at hfit
          cases hanswer : reply.encode with
          | error fault =>
            have hnot : ∀ key, reply ≠ .ack key := by
              intro key hack
              obtain ⟨bs, hbs⟩ := Frame.encode_ack key
              rw [hack, hbs] at hanswer
              cases hanswer
            refine ⟨.error (.protocol fault), _, ?_,
              .taken hread hsession hreceive (.inr ⟨⟨_, rfl⟩, hnot⟩)⟩
            rw [Wire.witness_of_not_ack hnot]
            exact hfailed (by rw [hsent, hanswer]; rfl)
          | ok answer =>
            have hback := Frame.decode_encode hanswer hfit.1 hfit.2
            rw [hanswer] at hsent
            have hsend : (onLink ((Transport.wire A).send bs)).perform d = (.ok answer, { d with
                link := { d.link.cutNext with ends := d.link.cutNext.ends.took s' g }.witness f'
                  reply }) := by
              rw [onLink, perform_within, Wire.perform_send_ok hsent]
              simp only [Wire.watch, hdecode, hback]
            refine ⟨_, _, ?_, .taken hread hsession hreceive (.inl rfl)⟩
            rw [exchange, hencode]
            refine (perform_bind_ok rfl).trans ((perform_bind_ok hsend).trans ?_)
            rw [hback]
            rfl

end Delivery

end GroupReplication
