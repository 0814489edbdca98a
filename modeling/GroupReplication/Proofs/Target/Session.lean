/-
A group that serves a single source, and what the frames of that source do to it. All connections
of the source share one channel; a frame that cannot be answered disconnects it, and never changes what it
confirmed.
-/
import GroupReplication.Proofs.Target.Consume
import GroupReplication.Target.Session

namespace GroupReplication

open GroupReplication.Action

/-- The channel of the same source, with all that was confirmed and staged. -/
structure TargetChannel.Stands (c c' : TargetChannel) : Prop where
  group : c'.group = c.group
  source : c'.source = c.source
  settings : c'.settings = c.settings
  staged : c'.staged = c.staged
  confirmation : c'.confirmation = c.confirmation
  pending : c.firstHandshakePending = true → c'.firstHandshakePending = true

namespace TargetChannel.Stands

variable {c c' c'' : TargetChannel}

theorem trans (h : c.Stands c') (h' : c'.Stands c'') : c.Stands c'' :=
  ⟨h'.group.trans h.group, h'.source.trans h.source, h'.settings.trans h.settings,
    h'.staged.trans h.staged, h'.confirmation.trans h.confirmation, h'.pending ∘ h.pending⟩

theorem disconnected (c : TargetChannel) : c.Stands c.disconnected := ⟨rfl, rfl, rfl, rfl, rfl, id⟩

end TargetChannel.Stands

theorem TargetChannel.disconnected_state (c : TargetChannel) : c.disconnected.state ≠ .active := by
  unfold disconnected
  cases c.state <;> simp

/-- A channel that was asked to start over asks for a first handshake. -/
theorem TargetChannel.request_first (c : TargetChannel) : c.request.first = c.firstHandshakePending := by
  rw [request]
  cases c.firstHandshakePending <;> rfl

/-- A channel that resumes asks for what it has not confirmed. -/
theorem TargetChannel.request_lastConfirmed {c : TargetChannel} (h : c.request.first = false) :
    c.request.lastConfirmed = c.lastConfirmed := by
  rw [request_first] at h
  rw [request, h]
  rfl

namespace Receiver

variable {ρ : Type} {A : Applier ρ} {log : Nat → Packet}

theorem perform_moveTo (next : ChannelState) (r : Receiver ρ) :
    (moveTo next).perform r =
      if r.channel.state.allows next then
        (.ok (), { r with channel := { r.channel with state := next } })
      else (.error (.channel (.transition r.channel.state next)), r) := by
  rw [moveTo, perform_get_bind, ChannelState.transition]
  split <;> rfl

/-- A handshake is asked for by a channel that gives up an open connection, or has none. -/
theorem perform_requestHandshake (r : Receiver ρ) :
    requestHandshake.perform r =
      if r.channel.state = .active then
        (.ok { r.channel.disconnected with state := .handshaking }.request,
          { r with channel := { r.channel.disconnected with state := .handshaking } })
      else if r.channel.state.allows .handshaking then
        (.ok { r.channel with state := .handshaking }.request,
          { r with channel := { r.channel with state := .handshaking } })
      else (.error (.channel (.transition r.channel.state .handshaking)), r) := by
  rw [requestHandshake, perform_get_bind]
  by_cases hactive : r.channel.state = .active
  · have hmove : (moveTo .handshaking).perform { r with channel := r.channel.disconnected }
        = (.ok (), { r with channel := { r.channel.disconnected with state := .handshaking } }) := by
      rw [perform_moveTo]
      simp only [TargetChannel.disconnected, hactive, ChannelState.allows, if_true]
    simp only [hactive, if_true]
    rw [perform_onChannel_bind, perform_bind_ok hmove]
    rfl
  · simp only [hactive, if_false]
    rw [perform_bind, perform_moveTo]
    cases r.channel.state.allows .handshaking <;> rfl

/-- Asking for a handshake keeps what was confirmed, also when it is not the time for one. -/
theorem requestHandshake_spec (r : Receiver ρ) :
    (∃ e, requestHandshake.perform r = (.error e, r)) ∨
      ∃ c, requestHandshake.perform r = (.ok c.request, { r with channel := c }) ∧
        r.channel.Stands c ∧ c.state = .handshaking ∧
        ∀ log, Received log r.channel → Received log c := by
  rw [perform_requestHandshake]
  split
  · exact .inr ⟨_, rfl, ⟨rfl, rfl, rfl, rfl, rfl, id⟩, rfl, fun _ _ => .all rfl rfl⟩
  · split
    · exact .inr ⟨_, rfl, ⟨rfl, rfl, rfl, rfl, rfl, id⟩, rfl, fun _ h => h.congr rfl rfl rfl⟩
    · exact .inl ⟨_, rfl⟩

/-- What a target that takes the source's answer becomes. -/
structure Aligned (A : Applier ρ) (response : HandshakeResponse) (r r' : Receiver ρ) : Prop where
  group : r'.channel.group = r.channel.group
  source : r'.channel.source = r.channel.source
  settings : r'.channel.settings = r.channel.settings
  journal : r'.journal = r.journal
  started : 1 ≤ response.startKey
  asked : r.channel.state = .handshaking
  active : r'.channel.state = .active
  confirmed : r'.channel.lastConfirmed = response.startKey - 1
  bulk : r'.channel.bulk = none
  last : r'.channel.lastReceived = response.startKey - 1
  pending : r'.channel.firstHandshakePending = false
  discarded : response.discardLocalState = true → r'.channel.staged = [] ∧
    A.clearGroup r.channel.group r.replica = (.ok (), r'.replica)
  resumed : response.discardLocalState = false → r'.channel.staged = r.channel.staged ∧
    r'.replica = r.replica ∧ r.channel.lastConfirmed = response.startKey - 1

theorem perform_alignWith (A : Applier ρ) (response : HandshakeResponse) (r : Receiver ρ) :
    (alignWith A response).perform r =
      if response.startKey = 0 then (.error (.handshake .startKeyZero), r)
      else if response.discardLocalState then
        match A.clearGroup r.channel.group r.replica with
        | (.error e, replica) => (.error (.apply e.message), { r with replica })
        | (.ok (), replica) =>
          (.ok (), { r with
            replica
            channel := { r.channel with
              staged := [], confirmation := .upTo (response.startKey - 1) } })
      else if response.startKey ≠ r.channel.lastConfirmed + 1 then
        (.error (.handshake (.resumeElsewhere r.channel.group response.startKey
          r.channel.lastConfirmed)), r)
      else (.ok (), r) := by
  by_cases hstart : response.startKey = 0
  · simp only [alignWith, perform_get_bind, hstart, if_true]
    rfl
  · by_cases hdiscard : response.discardLocalState = true
    · simp only [alignWith, perform_get_bind, hstart, hdiscard, if_true, if_false]
      rcases A.clearGroup r.channel.group r.replica with ⟨_ | _, _⟩ <;> rfl
    · simp only [alignWith, perform_get_bind, hstart, hdiscard, if_false, Bool.false_eq_true]
      split <;> rfl

/-- An answer that does not fit only ends the handshake, but the copy may have been dropped in part. -/
theorem completeHandshake_spec (A : Applier ρ) (response : HandshakeResponse) (r : Receiver ρ) :
    (∃ e r', (completeHandshake A response).perform r = (.error e, r') ∧
      (∃ state, r'.channel = { r.channel with state } ∧
        (state = .disconnected ∨ state = r.channel.state)) ∧ r'.journal = r.journal ∧
      (r'.replica = r.replica ∨ response.discardLocalState = true ∧
        ∃ e, A.clearGroup r.channel.group r.replica = (.error e, r'.replica))) ∨
      ∃ r', (completeHandshake A response).perform r = (.ok (), r') ∧ Aligned A response r r' := by
  by_cases hstate : r.channel.state = .handshaking
  · have hrefused : ∀ {e r'}, (alignWith A response).perform r = (.error e, r') →
        r'.channel = r.channel → (completeHandshake A response).perform r
          = (.error e, { r' with channel := { r'.channel with state := .disconnected } }) := by
      intro e r' halign hsame
      have hmove : (moveTo .disconnected).perform r'
          = (.ok (), { r' with channel := { r'.channel with state := .disconnected } }) := by
        rw [perform_moveTo, hsame, hstate]
        rfl
      simp only [completeHandshake, perform_get_bind, hstate, ne_eq, not_true_eq_false, if_false]
      rw [perform_bind, perform_attempt, halign]
      exact perform_bind_ok hmove
    have htaken : ∀ {r'}, (alignWith A response).perform r = (.ok (), r') →
        r'.channel.state = .handshaking → (completeHandshake A response).perform r
          = (.ok (), { r' with channel := { r'.channel with
              bulk := none
              lastReceived := response.startKey - 1
              producerState := response.state
              firstHandshakePending := false
              stats.handshakes := r'.channel.stats.handshakes + 1
              state := .active } }) := by
      intro r' halign hsame
      simp only [completeHandshake, perform_get_bind, hstate, ne_eq, not_true_eq_false, if_false]
      rw [perform_bind, perform_attempt, halign]
      show (onChannel _ >>= fun _ => moveTo .active).perform r' = _
      rw [perform_onChannel_bind, perform_moveTo, hsame]
      rfl
    have halign := perform_alignWith A response r
    split at halign
    · exact .inl ⟨_, _, hrefused halign rfl, ⟨_, rfl, .inl rfl⟩, rfl, .inl rfl⟩
    · rename_i hstart
      have hpos : 1 ≤ response.startKey := Nat.one_le_iff_ne_zero.2 hstart
      split at halign
      · rename_i hdiscard
        split at halign
        · rename_i e replica hclear
          exact .inl ⟨_, _, hrefused halign rfl, ⟨_, rfl, .inl rfl⟩, rfl, .inr ⟨hdiscard, e, hclear⟩⟩
        · rename_i replica hclear
          refine .inr ⟨_, htaken halign hstate, rfl, rfl, rfl, rfl, hpos, hstate, rfl, rfl, rfl, rfl, rfl,
            fun _ => ⟨rfl, hclear⟩, fun hkept => ?_⟩
          rw [hdiscard] at hkept
          cases hkept
      · rename_i hdiscard
        split at halign
        · exact .inl ⟨_, _, hrefused halign rfl, ⟨_, rfl, .inl rfl⟩, rfl, .inl rfl⟩
        · rename_i hresume
          have hbehind : r.channel.lastConfirmed = response.startKey - 1 := by omega
          exact .inr ⟨_, htaken halign hstate, rfl, rfl, rfl, rfl, hpos, hstate, rfl, hbehind, rfl, rfl, rfl,
            fun h => absurd h hdiscard, fun _ => ⟨rfl, rfl, hbehind⟩⟩
  · refine .inl ⟨.channel (.replyOutOfPlace r.channel.group r.channel.state), r, ?_, ⟨_, rfl, .inr rfl⟩,
      rfl, .inl rfl⟩
    rw [completeHandshake, perform_get_bind]
    simp only [hstate, ne_eq, not_false_eq_true, if_true]
    rfl

end Receiver

/-! ## A group with one source -/

namespace TargetGroup

variable {ρ : Type}

/-- The group has at most the channel of this source. -/
def Serves (source : String) (g : TargetGroup ρ) : Option TargetChannel → Prop
  | none => g.slots = [] ∧ g.channels = []
  | some c => ∃ attached, g.slots = [(source, ⟨0, attached⟩)] ∧ g.channels = [c]

/-- The channel of a source, which is fresh as long as the group has none. -/
def orFresh (g : TargetGroup ρ) (source : String) (c? : Option TargetChannel) : TargetChannel :=
  c?.getD (.fresh g.name source g.settings)

/-- The group after its channel did some work. -/
def holding (g : TargetGroup ρ) (r : Receiver ρ) : TargetGroup ρ :=
  { g with replica := r.replica, journal := r.journal, channels := [r.channel] }

variable {source : String} {g : TargetGroup ρ} {c : TargetChannel}

theorem Serves.holding (h : g.Serves source (some c)) (r : Receiver ρ) :
    (g.holding r).Serves source (some r.channel) := by
  obtain ⟨attached, hslots, -⟩ := h
  exact ⟨attached, hslots, rfl⟩

theorem Serves.perform_onChannel (h : g.Serves source (some c)) {α : Type}
    (act : Action (Receiver ρ) α) :
    (TargetGroup.onChannel 0 act).perform g = ((act.perform ⟨c, g.replica, g.journal⟩).1,
      g.holding (act.perform ⟨c, g.replica, g.journal⟩).2) := by
  obtain ⟨attached, hslots, hchannels⟩ := h
  have hfirst : g.channels[0]? = some c := by rw [hchannels]; rfl
  simp only [TargetGroup.onChannel, perform_get_bind, hfirst, perform_set_bind, perform_decided]
  rw [hchannels]
  rfl

theorem Serves.disconnect (h : g.Serves source (some c)) :
    (g.disconnect 0).Serves source (some c.disconnected) := by
  obtain ⟨attached, hslots, hchannels⟩ := h
  refine ⟨attached, hslots, ?_⟩
  rw [TargetGroup.disconnect, hchannels]
  rfl

theorem Serves.detach (h : g.Serves source (some c)) :
    (g.detach source).Serves source (some c.disconnected) ∧ (g.detach source).replica = g.replica ∧
      (g.detach source).journal = g.journal ∧ (g.detach source).settings = g.settings ∧
      (g.detach source).name = g.name := by
  obtain ⟨attached, hslots, hchannels⟩ := h
  have hslot : g.slots.get? source = some ⟨0, attached⟩ := by simp [hslots, Table.get?]
  simp only [TargetGroup.detach, hslot]
  refine ⟨⟨false, ?_, ?_⟩, rfl, rfl, rfl, rfl⟩
  · simp [TargetGroup.disconnect, hslots, Table.insert]
  · simp [TargetGroup.disconnect, hchannels]

theorem Serves.slots {c? : Option TargetChannel} (h : g.Serves source c?) :
    ∀ s ∈ g.slots, s.1 = source := by
  intro s hs
  cases c? with
  | none =>
    rw [h.1] at hs
    cases hs
  | some c =>
    obtain ⟨attached, hslots, -⟩ := h
    rw [hslots, List.mem_singleton] at hs
    rw [hs]

/-- The channel is the one that the slot of the source holds. -/
theorem Serves.channelOf? {c? : Option TargetChannel} (h : g.Serves source c?) :
    g.channelOf? source = c? := by
  cases c? with
  | none => simp [TargetGroup.channelOf?, h.1]
  | some c =>
    obtain ⟨attached, hslots, hchannels⟩ := h
    simp [TargetGroup.channelOf?, hslots, hchannels, Table.get?]

/-- Without other sources nothing is closed. -/
theorem closeOthers_of_slots (h : ∀ s ∈ g.slots, s.1 = source) : g.closeOthers source = g := by
  have hstale : g.slots.filter (·.1 ≠ source) = [] :=
    List.filter_eq_nil_iff.2 fun s hs => by simp [h s hs]
  have hkept : g.slots.filter (·.1 = source) = g.slots :=
    List.filter_eq_self.2 fun s hs => by simp [h s hs]
  simp only [TargetGroup.closeOthers, hstale, hkept, List.foldl_nil]

/-- The only source can always attach, if it is a member at all. -/
theorem Serves.attach {c? : Option TargetChannel} (h : g.Serves source c?) :
    (∃ e, (TargetGroup.attach source).perform g = (.error e, g)) ∨
      ∃ g', (TargetGroup.attach source).perform g = (.ok 0, g') ∧
        g'.Serves source (some (g.orFresh source c?)) ∧
        g'.replica = g.replica ∧ g'.journal = g.journal ∧ g'.settings = g.settings ∧
        g'.name = g.name := by
  have hopened : (TargetGroup.attach source).perform g
      = if g.membership.allowsSource source then
          (.ok (g.openSlot source).1, (g.openSlot source).2)
        else (.error (.unknownMember (.source source g.name)), g) := by
    have hfree : (g.slots.find? fun s => s.2.attached && s.1 ≠ source) = none :=
      List.find?_eq_none.2 fun s hs => by simp [h.slots s hs]
    cases hallowed : g.membership.allowsSource source with
    | false =>
      simp only [TargetGroup.attach, perform_get_bind, hallowed, Bool.not_false, if_true]
      rfl
    | true =>
      simp only [TargetGroup.attach, perform_get_bind, hallowed, Bool.not_true,
        Bool.false_eq_true, if_false, if_true, hfree]
      by_cases hsingle : g.attachPolicy = .singleActiveSource
      · simp only [hsingle, if_true, perform_modify_bind, perform_get_bind, closeOthers_of_slots h.slots]
        rfl
      · simp only [hsingle, if_false]
        rfl
  rw [hopened]
  split
  · refine .inr ⟨(g.openSlot source).2, ?_⟩
    cases c? with
    | none =>
      obtain ⟨hslots, hchannels⟩ := h
      simp [TargetGroup.openSlot, hslots, hchannels, Table.insert, Serves, name, orFresh]
    | some c =>
      obtain ⟨attached, hslots, hchannels⟩ := h
      simp [TargetGroup.openSlot, hslots, hchannels, Table.get?, Table.insert, Serves, name, orFresh]
  · exact .inl ⟨_, rfl⟩

end TargetGroup

namespace Session

variable {ρ : Type} {source : String} {g : TargetGroup ρ} {s : Session}

/-- A connection that the source did not announce itself on, or that feeds its channel. -/
def Feeds (source : String) (c? : Option TargetChannel) (s : Session) : Prop :=
  s = .new ∨ s = ⟨some source, some 0⟩ ∧ c?.isSome = true

theorem Feeds.stays {c? c?' : Option TargetChannel} (h : s.Feeds source c?)
    (hstays : c?.isSome = true → c?'.isSome = true) : s.Feeds source c?' :=
  h.imp_right fun ⟨heq, hsome⟩ => ⟨heq, hstays hsome⟩

/-- What a frame on a connection that feeds the channel does. -/
theorem withChannel_some {c : TargetChannel} (h : g.Serves source (some c))
    (act : Action (Receiver ρ) Frame) :
    withChannel act ⟨some source, some 0⟩ g =
      match act.perform ⟨c, g.replica, g.journal⟩ with
      | (.ok reply, r) => (reply, ⟨some source, some 0⟩, g.holding r)
      | (.error e, r) => (e.rejection, ⟨some source, some 0⟩, (g.holding r).disconnect 0) := by
  simp only [withChannel, h.perform_onChannel]
  rcases act.perform ⟨c, g.replica, g.journal⟩ with ⟨_ | _, _⟩ <;> rfl

/-- A frame that did nothing to the copy, and left what the channel confirmed as it was. -/
structure Rests (log : Nat → Packet) (source : String) (g : TargetGroup ρ)
    (c? : Option TargetChannel) (s' : Session) (g' : TargetGroup ρ) (c?' : Option TargetChannel) :
    Prop where
  serves : g'.Serves source c?'
  feeds : s'.Feeds source c?'
  replica : g'.replica = g.replica
  journal : g'.journal = g.journal
  settings : g'.settings = g.settings
  name : g'.name = g.name
  known : c?.isSome = true → c?'.isSome = true
  stands : c?' = c? ∨ ∃ c', c?' = some c' ∧ c'.state ≠ .active ∧
    (g.orFresh source c?).Stands c' ∧ Received log c'

theorem Rests.refl {log : Nat → Packet} {c? : Option TargetChannel} (h : g.Serves source c?)
    (hs : s.Feeds source c?) : Rests log source g c? s g c? :=
  ⟨h, hs, rfl, rfl, rfl, rfl, id, .inl rfl⟩

/-- The channel is still the same, or it is not active any more. -/
theorem Rests.channel {log : Nat → Packet} {c? c?' : Option TargetChannel} {s' : Session}
    {g' : TargetGroup ρ} (h : Rests log source g c? s' g' c?') :
    g'.orFresh source c?' = g.orFresh source c? ∨
      (g'.orFresh source c?').state ≠ .active ∧
        (g.orFresh source c?).Stands (g'.orFresh source c?') ∧
        Received log (g'.orFresh source c?') := by
  rcases h.stands with rfl | ⟨c', rfl, hquiet, hstands, hreceived⟩
  · left
    rw [TargetGroup.orFresh, h.name, h.settings, TargetGroup.orFresh]
  · exact .inr ⟨hquiet, hstands, hreceived⟩

/-- A connect is refused before it reaches the channel of its source, or asks that for a handshake. -/
theorem connect_cases {c? : Option TargetChannel} (h : g.Serves source c?) (s : Session)
    (group : String) :
    (∃ code text, connect source group s g = (.reject code text, s, g)) ∨
      ∃ g' : TargetGroup ρ, g'.Serves source (some (g.orFresh source c?)) ∧ g'.replica = g.replica ∧
        g'.journal = g.journal ∧ g'.settings = g.settings ∧ g'.name = g.name ∧
        ((∃ e r, Receiver.requestHandshake.perform ⟨g.orFresh source c?, g.replica, g.journal⟩
              = (.error e, r) ∧
            connect source group s g = (e.rejection, s, (g'.holding r).detach source)) ∨
          ∃ request r, Receiver.requestHandshake.perform ⟨g.orFresh source c?, g.replica, g.journal⟩
              = (.ok request, r) ∧
            connect source group s g = (.handshake request, ⟨some source, some 0⟩, g'.holding r)) := by
  by_cases hgroup : group = g.name
  · cases hbound : s.source.isSome with
    | true => exact .inl ⟨_, _, by rw [connect, if_neg (not_not_intro hgroup), if_pos hbound]⟩
    | false =>
      rcases h.attach with ⟨e, he⟩ | ⟨g', hattached, hserves, hreplica, hjournal, hsettings, hname⟩
      · refine .inl ⟨e.rejectCode, e.message, ?_⟩
        rw [connect, if_neg (not_not_intro hgroup), hbound, he]
        rfl
      · refine .inr ⟨g', hserves, hreplica, hjournal, hsettings, hname, ?_⟩
        have hrequest := hserves.perform_onChannel Receiver.requestHandshake
        rw [hreplica, hjournal] at hrequest
        rcases hasked : Receiver.requestHandshake.perform
          (⟨g.orFresh source c?, g.replica, g.journal⟩ : Receiver ρ) with ⟨e | request, r⟩
        · refine .inl ⟨e, r, rfl, ?_⟩
          rw [connect, if_neg (not_not_intro hgroup), hbound, hattached]
          simp only [hrequest, hasked]
          rfl
        · refine .inr ⟨request, r, rfl, ?_⟩
          rw [connect, if_neg (not_not_intro hgroup), hbound, hattached]
          simp only [hrequest, hasked]
          rfl
  · exact .inl ⟨_, _, by rw [connect, if_pos hgroup]⟩

/-- A connect may be refused, and otherwise starts a handshake. -/
theorem connect_spec (log : Nat → Packet) {c? : Option TargetChannel} (h : g.Serves source c?)
    (hs : s.Feeds source c?) (hreceived : ∀ c, c? = some c → Received log c) (group : String) :
    ∃ reply s' g' c?', connect source group s g = (reply, s', g') ∧
      Rests log source g c? s' g' c?' ∧
      ((∃ code text, reply = .reject code text) ∨
        ∃ c', c?' = some c' ∧ reply = .handshake c'.request) := by
  have hfresh : Received log (g.orFresh source c?) := by
    cases c? with
    | none => exact .all rfl rfl
    | some c => exact hreceived c rfl
  rcases connect_cases h s group with ⟨code, text, hsame⟩ |
    ⟨g₁, hserves, hreplica, hjournal, hsettings, hname, ⟨e, r, hasked, hconnect⟩ |
      ⟨request, r, hasked, hconnect⟩⟩
  · exact ⟨_, s, g, c?, hsame, .refl h hs, .inl ⟨_, _, rfl⟩⟩
  · rcases Receiver.requestHandshake_spec
      (⟨g.orFresh source c?, g.replica, g.journal⟩ : Receiver ρ) with ⟨e', he⟩ | ⟨c', hok, -⟩
    · rw [he] at hasked
      cases hasked
      obtain ⟨hdetached, hreplica', hjournal', hsettings', hname'⟩ :=
        (hserves.holding ⟨g.orFresh source c?, g.replica, g.journal⟩).detach
      exact ⟨_, s, _, _, hconnect, ⟨hdetached, hs.stays fun _ => rfl, hreplica', hjournal',
        hsettings'.trans hsettings, hname'.trans hname, fun _ => rfl,
        .inr ⟨_, rfl, TargetChannel.disconnected_state _, .disconnected _,
          received_disconnected log _⟩⟩, .inl ⟨_, _, rfl⟩⟩
    · rw [hok] at hasked
      cases hasked
  · rcases Receiver.requestHandshake_spec
      (⟨g.orFresh source c?, g.replica, g.journal⟩ : Receiver ρ) with
      ⟨e', he⟩ | ⟨c', hok, hstands, hstate, hkept⟩
    · rw [he] at hasked
      cases hasked
    · rw [hok] at hasked
      cases hasked
      exact ⟨_, _, _, some c', hconnect, ⟨hserves.holding ⟨c', g.replica, g.journal⟩, .inr ⟨rfl, rfl⟩,
        rfl, rfl, hsettings, hname, fun _ => rfl, .inr ⟨c', rfl, by simp [hstate], hstands,
          hkept log hfresh⟩⟩, .inr ⟨c', rfl, rfl⟩⟩

/-- On a connection without a connect, all other frames are refused. -/
theorem receive_new (A : Applier ρ) {f : Frame} (hf : ∀ name group, f ≠ .connect name group) :
    ∃ text, receive A f .new g = (.reject .protocol text, .new, g) := by
  cases f with
  | connect name group => exact absurd rfl (hf name group)
  | reject code text => cases code <;> exact ⟨_, rfl⟩
  | _ => exact ⟨_, rfl⟩

/-- A connection that closes disconnects the channel that it fed. -/
theorem close_spec (log : Nat → Packet) {c? : Option TargetChannel} (h : g.Serves source c?)
    (hs : s.Feeds source c?) :
    ∃ c?', Rests log source g c? (s.close g).1 (s.close g).2 c?' ∧
      (s ≠ .new → ∀ c, c?' = some c → c.state ≠ .active) := by
  rcases hs with rfl | ⟨rfl, hsome⟩
  · exact ⟨c?, .refl h (.inl rfl), fun hnew => absurd rfl hnew⟩
  · obtain ⟨c, rfl⟩ := Option.isSome_iff_exists.1 hsome
    obtain ⟨hserves, hreplica, hjournal, hsettings, hname⟩ := h.detach
    refine ⟨some c.disconnected, ⟨hserves, .inl rfl, hreplica, hjournal, hsettings, hname, fun _ => rfl,
      .inr ⟨_, rfl, c.disconnected_state, .disconnected c, received_disconnected log c⟩⟩, ?_⟩
    intro _ c' hc'
    cases hc'
    exact c.disconnected_state

/-- A refusal lets the channel start over, or disconnects it. -/
theorem reject_spec (log : Nat → Packet) {c : TargetChannel} (A : Applier ρ)
    (h : g.Serves source (some c)) (code : RejectCode) (text : String) :
    ∃ reply g' c', receive A (.reject code text) ⟨some source, some 0⟩ g
        = (reply, ⟨some source, some 0⟩, g') ∧
      Rests log source g (some c) ⟨some source, some 0⟩ g' (some c') ∧ c'.state ≠ .active ∧
      ((∃ code text, reply = .reject code text) ∨ reply = .handshake c'.request ∨
        reply = .ack c'.lastConfirmed) := by
  have hfeeds : Session.Feeds source (some c) ⟨some source, some 0⟩ := .inr ⟨rfl, rfl⟩
  by_cases hresume : code = .resumeKeyCompacted
  · subst hresume
    have hstart := withChannel_some h (do
      Receiver.onChannel fun c => c.disconnected.requiringResync
      return .handshake (← Receiver.requestHandshake))
    rw [Receiver.perform_onChannel_bind] at hstart
    rcases Receiver.requestHandshake_spec
      (⟨c.disconnected.requiringResync, g.replica, g.journal⟩ : Receiver ρ) with
      ⟨e, he⟩ | ⟨c', hok, hstands, hstate, hkept⟩
    · rw [perform_bind_error he] at hstart
      have hserves := (h.holding ⟨c.disconnected.requiringResync, g.replica, g.journal⟩).disconnect
      have hquiet := c.disconnected.requiringResync.disconnected_state
      exact ⟨_, _, _, hstart, ⟨hserves, hfeeds.stays fun _ => rfl, rfl, rfl, rfl, rfl, fun _ => rfl,
        .inr ⟨_, rfl, hquiet, ⟨rfl, rfl, rfl, rfl, rfl, fun _ => rfl⟩,
          received_disconnected log _⟩⟩, hquiet, .inl ⟨_, _, rfl⟩⟩
    · rw [perform_bind_ok hok] at hstart
      have hserves := h.holding ⟨c', g.replica, g.journal⟩
      have hquiet : c'.state ≠ .active := by simp [hstate]
      exact ⟨_, _, _, hstart, ⟨hserves, hfeeds.stays fun _ => rfl, rfl, rfl, rfl, rfl, fun _ => rfl,
        .inr ⟨c', rfl, hquiet,
          (⟨rfl, rfl, rfl, rfl, rfl, fun _ => rfl⟩ : c.Stands c.disconnected.requiringResync).trans
            hstands, hkept log (.all rfl rfl)⟩⟩, hquiet, .inr (.inl rfl)⟩
  · have hstart : receive A (.reject code text) ⟨some source, some 0⟩ g
        = (.ack c.lastConfirmed, ⟨some source, some 0⟩,
          g.holding ⟨c.disconnected, g.replica, g.journal⟩) := by
      have hother : receive A (.reject code text) = withChannel (ρ := ρ) (do
          Receiver.onChannel (·.disconnected)
          return .ack (← get).channel.lastConfirmed) := by
        cases code <;> first | rfl | exact absurd rfl hresume
      rw [hother, withChannel_some h, Receiver.perform_onChannel_bind]
      rfl
    exact ⟨_, _, _, hstart, ⟨h.holding ⟨c.disconnected, g.replica, g.journal⟩,
      hfeeds.stays fun _ => rfl, rfl, rfl, rfl, rfl, fun _ => rfl,
      .inr ⟨_, rfl, c.disconnected_state, .disconnected c, received_disconnected log c⟩⟩,
      c.disconnected_state, .inr (.inr rfl)⟩

/-- The source's answer to a handshake is taken, or disconnects the channel. -/
theorem handshakeReply_spec (log : Nat → Packet) {c : TargetChannel} (A : Applier ρ)
    (h : g.Serves source (some c)) (response : HandshakeResponse) :
    ∃ reply g' c', receive A (.handshakeReply response) ⟨some source, some 0⟩ g
        = (reply, ⟨some source, some 0⟩, g') ∧
      g'.Serves source (some c') ∧ g'.journal = g.journal ∧ g'.settings = g.settings ∧
      g'.name = g.name ∧
      ((reply = .ack (response.startKey - 1) ∧
          Receiver.Aligned A response ⟨c, g.replica, g.journal⟩ ⟨c', g'.replica, g'.journal⟩) ∨
        (∃ code text, reply = .reject code text) ∧ c'.state ≠ .active ∧ c.Stands c' ∧ Received log c' ∧
          (g'.replica = g.replica ∨
            ∃ e, A.clearGroup c.group g.replica = (.error e, g'.replica))) := by
  have hstart := withChannel_some h (do
    Receiver.completeHandshake A response
    return .ack (← get).channel.lastConfirmed)
  rcases Receiver.completeHandshake_spec A response (⟨c, g.replica, g.journal⟩ : Receiver ρ) with
    ⟨e, r', he, ⟨state, hsame, -⟩, hjournal, hreplica⟩ | ⟨r', hok, haligned⟩
  · rw [perform_bind_error he] at hstart
    have hstands : c.Stands r'.channel := hsame ▸ ⟨rfl, rfl, rfl, rfl, rfl, id⟩
    exact ⟨_, _, _, hstart, (h.holding r').disconnect, hjournal, rfl, rfl, .inr ⟨⟨_, _, rfl⟩,
      TargetChannel.disconnected_state _, hstands.trans (.disconnected _), received_disconnected log _,
      hreplica.imp_right And.right⟩⟩
  · rw [perform_bind_ok hok] at hstart
    refine ⟨_, _, _, hstart, h.holding r', haligned.journal, rfl, rfl, .inl ⟨?_, haligned⟩⟩
    rw [haligned.confirmed]

/-- Packets are acknowledged up to the key that the statement about them reached. -/
theorem batch_spec {A : Applier ρ} {log : Nat → Packet} {P : Nat → Work ρ → Prop}
    {settings : ConflictSettings} (hP : Progress A settings log P) (hlog : ∀ k, (log k).key = k)
    {ps : List Packet} (hps : ∀ p ∈ ps, p = log p.key)
    (hagain : ∀ {p key w result w'}, p ∈ ps → p.key ≤ key → p.payload.isPhase = false → P key w →
      Applies A settings p w result w' → P key w')
    {c : TargetChannel} (h : g.Serves source (some c)) (hsettings : c.settings = settings)
    (htells : P c.lastConfirmed ⟨c.staged, g.replica, g.journal⟩) (hreceived : Received log c) :
    ∃ reply g' c', receive A (.batch ps) ⟨some source, some 0⟩ g
        = (reply, ⟨some source, some 0⟩, g') ∧
      g'.Serves source (some c') ∧ g'.settings = g.settings ∧ g'.name = g.name ∧
      c'.settings = settings ∧ P c'.lastConfirmed ⟨c'.staged, g'.replica, g'.journal⟩ ∧
      Received log c' ∧ ∀ key, reply = .ack key → key = c'.lastConfirmed := by
  have hstart := withChannel_some h (do return .ack (← Receiver.consumeBatch A ps))
  obtain ⟨result, r', hdone, hadvances, htells', hthen⟩ := Receiver.consumeBatch_spec hP hlog hps
    hagain (r := ⟨c, g.replica, g.journal⟩) hsettings htells hreceived
  cases result with
  | error e =>
    rw [perform_bind_error hdone] at hstart
    exact ⟨_, _, _, hstart, (h.holding r').disconnect, rfl, rfl,
      hadvances.settings.trans hsettings, htells', received_disconnected log _,
      fun key heq => nomatch heq⟩
  | ok key =>
    rw [perform_bind_ok hdone] at hstart
    obtain ⟨hreceived', hkey⟩ := hthen key rfl
    exact ⟨_, _, _, hstart, h.holding r', rfl, rfl, hadvances.settings.trans hsettings, htells',
      hreceived', fun k heq => (Frame.ack.inj heq).symm.trans hkey⟩

/-- When no effect can fail, a batch that does not begin before the next packet is either taken in as
a whole, and then began with it, or disconnects the channel and changes nothing. -/
theorem batch_next {A : Applier ρ} {log : Nat → Packet} {P : Nat → Work ρ → Prop}
    {settings : ConflictSettings} (hP : Progress A settings log P) (hfail : ¬ A.CanFail settings)
    (hlog : ∀ k, (log k).key = k) {ps : List Packet} (hps : ∀ p ∈ ps, p = log p.key) {first : Nat}
    (hkeyed : Packet.KeyedFrom first ps) (hne : ps ≠ []) {c : TargetChannel}
    (h : g.Serves source (some c)) (hsettings : c.settings = settings)
    (htells : P c.lastConfirmed ⟨c.staged, g.replica, g.journal⟩) (hreceived : Received log c)
    (hahead : c.state = .active → c.lastReceived + 1 ≤ first)
    (hnumbered : first + ps.length ≤ 2 ^ 64) :
    ∃ reply g' c', receive A (.batch ps) ⟨some source, some 0⟩ g
        = (reply, ⟨some source, some 0⟩, g') ∧
      g'.Serves source (some c') ∧ g'.settings = g.settings ∧ g'.name = g.name ∧
      ((reply = .ack c'.lastConfirmed ∧ c.state = .active ∧ c.Advances c' ∧
          P c'.lastConfirmed ⟨c'.staged, g'.replica, g'.journal⟩ ∧ Received log c' ∧
          c'.lastReceived + 1 = first + ps.length) ∨
        (∃ code text, reply = .reject code text) ∧ c' = c.disconnected ∧ g'.replica = g.replica ∧
          g'.journal = g.journal) := by
  have hstart := withChannel_some h (do return .ack (← Receiver.consumeBatch A ps))
  by_cases hnext : c.state = .active ∧ first = c.lastReceived + 1
  · obtain ⟨r', hdone, hadvances, htells', htook, hlast⟩ := Receiver.consumeBatch_next hP hfail hlog
      hps (r := ⟨c, g.replica, g.journal⟩) hsettings htells hreceived hnext.1 (hnext.2 ▸ hkeyed)
      (show c.lastReceived + ps.length < 2 ^ 64 by omega)
    rw [perform_bind_ok hdone] at hstart
    refine ⟨_, _, _, hstart, h.holding r', rfl, rfl,
      .inl ⟨rfl, hnext.1, hadvances, htells', htook, ?_⟩⟩
    rw [hlast, hnext.2]
    show c.lastReceived + ps.length + 1 = _
    omega
  · obtain ⟨p, ps, rfl⟩ := List.exists_cons_of_ne_nil hne
    have hplace : ¬ c.Takes p := fun htakes => by
      have hle := hahead htakes.active
      have hother : first ≠ c.lastReceived + 1 := fun heq => hnext ⟨htakes.active, heq⟩
      have hreached := htakes.reached
      rw [hkeyed.1] at hreached
      omega
    obtain ⟨e, he⟩ := Receiver.consumeBatch_refused (A := A) ps
      (r := ⟨c, g.replica, g.journal⟩) hplace
    rw [perform_bind_error he] at hstart
    exact ⟨_, _, _, hstart, (h.holding ⟨c, g.replica, g.journal⟩).disconnect, rfl, rfl,
      .inr ⟨⟨_, _, rfl⟩, rfl, rfl, rfl⟩⟩

/-- A packet on its own is taken as a batch of one. -/
theorem receive_packet (A : Applier ρ) (p : Packet) {c : TargetChannel}
    (h : g.Serves source (some c)) : receive A (.packet p) ⟨some source, some 0⟩ g
      = receive A (.batch [p]) ⟨some source, some 0⟩ g := by
  rw [receive, receive, withChannel_some h, withChannel_some h]
  simp only [perform_bind, Receiver.perform_consumeBatch_singleton]

end Session

end GroupReplication
