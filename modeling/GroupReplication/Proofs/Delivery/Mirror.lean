/-
What a worker's connections keep true of the target behind a wire: its copy is what consuming the
packets from the last restart up to the confirmed key makes of what that restart left. A frame that
gets lost, is refused or is out of place changes nothing in this (`Wire.Rests`); an acknowledged
handshake or batch takes it further.
-/
import GroupReplication.Proofs.Delivery.Wire
import GroupReplication.Proofs.Target.Consumed
import GroupReplication.Proofs.Target.Session

namespace GroupReplication

open GroupReplication.Action

namespace Wire

/-- The channel of a source behind the wire, which is fresh as long as there is none. -/
def channel {ρ : Type} (source : String) (c? : Option TargetChannel) (w : Wire ρ) : TargetChannel :=
  w.ends.group.orFresh source c?

/-- Where delivery started last. -/
def startKey {ρ : Type} (w : Wire ρ) : Nat := (w.restart?.map (·.1)).getD 1

/-- The copy that delivery started on last. -/
def base {ρ : Type} (initial : ρ) (w : Wire ρ) : ρ := (w.restart?.map (·.2)).getD initial

/-- The target behind the wire mirrors a log, from the last restart up to the key that it confirmed. -/
structure Mirrors (log : Nat → Packet) (settings : ConflictSettings) (source : String)
    (initial : Replica) (w : Wire Replica) (c? : Option TargetChannel) : Prop where
  serves : w.ends.group.Serves source c?
  feeds : ∀ s, w.ends.link.session = some s → s.Feeds source c?
  calm : w.ends.link.session ≠ some ⟨some source, some 0⟩ → (w.channel source c?).state ≠ .active
  received : Received log (w.channel source c?)
  configured : w.ends.group.settings = settings
  governed : (w.channel source c?).settings = settings
  consumes : Consumes Replica.applier settings log w.startKey (w.base initial)
    (w.channel source c?).lastConfirmed
    ⟨(w.channel source c?).staged, w.ends.group.replica, w.ends.group.journal⟩
  untouched : w.restart? = none → (w.channel source c?).firstHandshakePending = true ∧
    (w.channel source c?).lastConfirmed = 0 ∧ (w.channel source c?).state ≠ .active
  cleared : ∀ start base, w.restart? = some (start, base) → base.entries = [] ∧ base.locks = [] ∧
    base.requireTypes = initial.requireTypes

/-- Nothing was taken further between two states of a wire. -/
structure Rests (log : Nat → Packet) (settings : ConflictSettings) (source : String)
    (initial : Replica) (w : Wire Replica) (c? : Option TargetChannel) (w' : Wire Replica)
    (c?' : Option TargetChannel) : Prop where
  mirrors : w'.Mirrors log settings source initial c?'
  restart : w'.restart? = w.restart?
  confirmed : (w'.channel source c?').lastConfirmed = (w.channel source c?).lastConfirmed
  quiet : w'.channel source c?' = w.channel source c? ∨ (w'.channel source c?').state ≠ .active

variable {log : Nat → Packet} {settings : ConflictSettings} {source : String} {initial : Replica}
  {w w' : Wire Replica} {c? c?' : Option TargetChannel}

theorem mirrors_new (cuts : List Bool) (membership : Membership) (policy : AttachPolicy) :
    (Wire.new cuts (.new membership policy settings initial)).Mirrors log settings source initial
      none where
  serves := ⟨rfl, rfl⟩
  feeds s hs := by cases hs
  calm _ := by simp [channel, TargetGroup.orFresh, TargetChannel.fresh]
  received := .all rfl rfl
  configured := rfl
  governed := rfl
  consumes := consumes_start rfl
  untouched _ := ⟨rfl, rfl, by simp [channel, TargetGroup.orFresh, TargetChannel.fresh]⟩
  cleared _ _ h := by cases h

/-- Whether types are required never changes. -/
theorem Mirrors.requireTypes (h : w.Mirrors log settings source initial c?)
    (hkind : settings.targetKind = .clustered) :
    w.ends.group.replica.requireTypes = initial.requireTypes := by
  have hreplica := congrArg (·.2.requireTypes) h.consumes.result
  simp only [Replica.requireTypes_consumed hkind] at hreplica
  rw [hreplica]
  cases hrestart : w.restart? with
  | none => rw [base, hrestart]; rfl
  | some restart =>
    rw [base, hrestart]
    exact (h.cleared restart.1 restart.2 hrestart).2.2

/-- A wire with the same connection and the same target behind it. -/
theorem Mirrors.same (h : w.Mirrors log settings source initial c?)
    (hsession : w'.ends.link.session = w.ends.link.session)
    (hgroup : w'.ends.group = w.ends.group) (hrestart : w'.restart? = w.restart?) :
    w.Rests log settings source initial c? w' c? := by
  have hchannel : w'.channel source c? = w.channel source c? := by rw [channel, hgroup, channel]
  have hstart : w'.startKey = w.startKey := by rw [startKey, hrestart, startKey]
  have hbase : w'.base initial = w.base initial := by rw [base, hrestart, base]
  refine ⟨⟨?_, ?_, ?_, ?_, ?_, ?_, ?_, ?_, ?_⟩, hrestart, by rw [hchannel], .inl hchannel⟩
  · rw [hgroup]
    exact h.serves
  · rw [hsession]
    exact h.feeds
  · rw [hsession, hchannel]
    exact h.calm
  · rw [hchannel]
    exact h.received
  · rw [hgroup]
    exact h.configured
  · rw [hchannel]
    exact h.governed
  · rw [hchannel, hstart, hbase, hgroup]
    exact h.consumes
  · rw [hrestart, hchannel]
    exact h.untouched
  · rw [hrestart]
    exact h.cleared

/-- What happened on a connection did nothing to the copy. -/
theorem Mirrors.rests (h : w.Mirrors log settings source initial c?) {s' : Session}
    (hrests : Session.Rests log source w.ends.group c? s' w'.ends.group c?')
    (hsession : w'.ends.link.session = none ∨ w'.ends.link.session = some s')
    (hrestart : w'.restart? = w.restart?)
    (hcalm : w'.ends.link.session ≠ some ⟨some source, some 0⟩ →
      (w'.channel source c?').state ≠ .active) :
    w.Rests log settings source initial c? w' c?' := by
  have hchannel : (w'.channel source c?').lastConfirmed = (w.channel source c?).lastConfirmed ∧
      (w'.channel source c?').staged = (w.channel source c?).staged ∧
      Received log (w'.channel source c?') ∧
      (w'.channel source c?').settings = (w.channel source c?).settings ∧
      ((w.channel source c?).firstHandshakePending = true →
        (w'.channel source c?').firstHandshakePending = true) ∧
      (w'.channel source c?' = w.channel source c? ∨ (w'.channel source c?').state ≠ .active) := by
    rcases hrests.channel with hsame | ⟨hquiet, hstands, hreceived⟩
    · have hsame : w'.channel source c?' = w.channel source c? := hsame
      rw [hsame]
      exact ⟨rfl, rfl, h.received, rfl, id, .inl rfl⟩
    · exact ⟨congrArg (·.lastConfirmed) hstands.confirmation, hstands.staged, hreceived,
        hstands.settings, hstands.pending, .inr hquiet⟩
  obtain ⟨hconfirmed, hstaged, hreceived, hsettings, hpending, hquiet⟩ := hchannel
  have hstart : w'.startKey = w.startKey := by rw [startKey, hrestart, startKey]
  have hbase : w'.base initial = w.base initial := by rw [base, hrestart, base]
  refine ⟨⟨hrests.serves, fun s hs => ?_, hcalm, hreceived, hrests.settings.trans h.configured,
    hsettings.trans h.governed, ?_, fun hnone => ?_, ?_⟩, hrestart, hconfirmed, hquiet⟩
  · rcases hsession with hnone | hsome
    · rw [hnone] at hs
      cases hs
    · rw [hsome] at hs
      cases hs
      exact hrests.feeds
  · rw [hstart, hbase, hconfirmed, hstaged, hrests.replica, hrests.journal]
    exact h.consumes
  · obtain ⟨hfirst, hzero, hidle⟩ := h.untouched (hrestart.symm.trans hnone)
    refine ⟨hpending hfirst, hconfirmed.trans hzero, ?_⟩
    rcases hquiet with hsame | hquiet
    · rwa [hsame]
    · exact hquiet
  · rw [hrestart]
    exact h.cleared

theorem Rests.trans {w'' : Wire Replica} {c?'' : Option TargetChannel}
    (h : w.Rests log settings source initial c? w' c?')
    (h' : w'.Rests log settings source initial c?' w'' c?'') :
    w.Rests log settings source initial c? w'' c?'' :=
  ⟨h'.mirrors, h'.restart.trans h.restart, h'.confirmed.trans h.confirmed,
    h'.quiet.elim (fun hsame => hsame ▸ h.quiet) .inr⟩

/-- A channel that is not active stays so. -/
theorem Rests.idle (h : w.Rests log settings source initial c? w' c?')
    (hidle : (w.channel source c?).state ≠ .active) : (w'.channel source c?').state ≠ .active := by
  rcases h.quiet with hsame | hquiet
  · rwa [hsame]
  · exact hquiet

/-- Without its connection the channel is not active. -/
theorem Mirrors.closed (h : w.Mirrors log settings source initial c?) :
    ∃ c?', w.Rests log settings source initial c? { w with ends := w.ends.closeSession } c?' := by
  cases hsession : w.ends.link.session with
  | none =>
    have hsame : w.ends.closeSession = w.ends := by rw [LoopbackEnds.closeSession, hsession]
    exact ⟨c?, h.same (by rw [hsame]) (by rw [hsame]) rfl⟩
  | some s =>
    have hclosed : w.ends.closeSession
        = ⟨{ w.ends.link with session := none }, (s.close w.ends.group).2⟩ := by
      rw [LoopbackEnds.closeSession, hsession]
    obtain ⟨c?', hrests, hquiet⟩ := Session.close_spec log h.serves (h.feeds s hsession)
    have hsettled : Session.Rests log source w.ends.group c? (s.close w.ends.group).1
        w.ends.closeSession.group c?' := by
      rw [hclosed]
      exact hrests
    refine ⟨c?', h.rests hsettled (.inl (by rw [hclosed])) rfl fun _ => ?_⟩
    show (TargetGroup.orFresh w.ends.closeSession.group source c?').state ≠ .active
    rw [hclosed]
    by_cases hnew : s = .new
    · have hidle := h.calm (by rw [hsession, hnew]; simp [Session.new])
      rcases hrests.channel with hsame | ⟨hquiet, -⟩
      · rw [hsame]
        exact hidle
      · exact hquiet
    · cases c?' with
      | none => simp [TargetGroup.orFresh, TargetChannel.fresh]
      | some c => exact hquiet hnew c rfl

/-- A new connection, which has not announced its source. -/
theorem Mirrors.opened (h : w.Mirrors log settings source initial c?)
    (hidle : (w.channel source c?).state ≠ .active) :
    { w with ends := w.ends.opened }.Mirrors log settings source initial c? where
  serves := h.serves
  feeds s hs := by
    cases hs
    exact .inl rfl
  calm _ := hidle
  received := h.received
  configured := h.configured
  governed := h.governed
  consumes := h.consumes
  untouched := h.untouched
  cleared := h.cleared

/-- What comes of a frame changes nothing unless the far side takes it in. -/
theorem Mirrors.sent (h : w.Mirrors log settings source initial c?) {f : Frame}
    {result : Except Error Frame} (hsent : w.Sent Replica.applier f result w') (hfits : f.Fits)
    (hordered : f.Ordered) :
    (∃ c?', w.Rests log settings source initial c? w' c?' ∧ ∃ e, result = .error e) ∨
      ∃ s s' reply g, w.ends.link.session = some s ∧ s.Feeds source c? ∧
        s.receive Replica.applier f w.ends.group = (reply, s', g) ∧
        (result = .ok reply ∨ (∃ e, result = .error e) ∧ ∀ key, reply ≠ .ack key) ∧
        w' = { w.cutNext with ends := w.cutNext.ends.took s' g }.witness f reply := by
  cases hsent with
  | kept hsession hgroup hrestart => exact .inl ⟨c?, h.same hsession hgroup hrestart, _, rfl⟩
  | lost =>
    have hcut : w.Rests log settings source initial c? w.cutNext c? := h.same rfl rfl rfl
    obtain ⟨c?', hclosed⟩ := hcut.mirrors.closed
    exact .inl ⟨c?', hcut.trans hclosed, _, rfl⟩
  | @taken s _ _ _ _ _ hread hsession hreceive hanswer =>
    cases hread.same hfits hordered
    exact .inr ⟨s, _, _, _, hsession, h.feeds s hsession, hreceive, hanswer, rfl⟩

end Wire

end GroupReplication
