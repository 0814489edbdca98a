/-
What a signal does to a group that any number of sources can attach to, over a copy in memory. It comes to
the channel of one source, and either leaves the copy and all that was confirmed and staged as it was, or
has that channel consume packets, or has it drop the whole copy and start over.
-/
import GroupReplication.Proofs.Frame.Limits
import GroupReplication.Proofs.Target.Acknowledge
import GroupReplication.Proofs.Target.Placed

namespace GroupReplication

open GroupReplication.Action

/-- The channel is as it was, or it may have lost its connection, waits for an answer or got one, with all
that it confirmed and staged. -/
structure TargetChannel.Pauses (c c' : TargetChannel) : Prop where
  settings : c'.settings = c.settings
  staged : c'.staged = c.staged
  confirmed : c'.lastConfirmed = c.lastConfirmed
  rests : c' = c ∨ c'.Settled

namespace TargetChannel.Pauses

variable {c c' : TargetChannel}

theorem refl (c : TargetChannel) : c.Pauses c := ⟨rfl, rfl, rfl, .inl rfl⟩

theorem of_stands (h : c.Stands c') (hsettled : c'.Settled) : c.Pauses c' :=
  ⟨h.settings, h.staged, congrArg (·.lastConfirmed) h.confirmation, .inr hsettled⟩

theorem disconnected (c : TargetChannel) : c.Pauses c.disconnected :=
  .of_stands (.disconnected c) (settled_disconnected c)

theorem exact (h : c.Pauses c') (hexact : c.Exact) : c'.Exact :=
  h.rests.elim (fun hsame => hsame ▸ hexact) (·.exact)

theorem holds (h : c.Pauses c') {good : Packet → Prop} (hheld : c.Holds good) : c'.Holds good :=
  h.rests.elim (fun hsame => hsame ▸ hheld) (·.holds good)

end TargetChannel.Pauses

/-- Detaching a source has its channel pause, and no other. -/
theorem TargetGroup.Placed.Detaches.pauses {ρ : Type} {source : String} {g g' : TargetGroup ρ}
    (h : Detaches source g g') (other : String) : (g.channelFor other).Pauses (g'.channelFor other) := by
  have hname : g'.name = g.name := congrArg Membership.name h.follows.membership
  by_cases hother : other = source
  · subst hother
    cases hchannel : g.channelOf? other with
    | none =>
      have hsame : g'.channelOf? other = g.channelOf? other := by rw [h.channel, hchannel]; rfl
      rw [channelFor_congr hname h.follows.settings hsame]
      exact .refl _
    | some c =>
      rw [channelFor, channelFor, h.channel, hchannel]
      exact .disconnected c
  · rw [channelFor_congr hname h.follows.settings (h.others other hother)]
    exact .refl _

/-- Work that has a channel pause leaves the others alone. -/
theorem TargetGroup.Placed.pauses_hosting {ρ : Type} {g : TargetGroup ρ} {n : Nat} {c : TargetChannel}
    (h : g.Placed) (hmulti : g.attachPolicy = .multiSource) (hc : g.channels[n]? = some c)
    {r : Receiver ρ} (hpauses : c.Pauses r.channel) (other : String) :
    (g.channelFor other).Pauses ((g.hosting n r).channelFor other) := by
  obtain ⟨hown, hothers⟩ := h.channelFor_hosting hmulti hc r
  by_cases hother : other = c.source
  · rw [hother, hown, h.channelFor_eq hmulti hc]
    exact hpauses
  · rw [hothers other hother]
    exact .refl _

/-- Packets are consumed, and the channel is disconnected if one of them cannot be. -/
theorem Receiver.answer_consumeBatch {ρ : Type} {A : Applier ρ} (ps : List Packet) (r : Receiver ρ) :
    ∃ result r', (consumeBatch A ps).perform r = (result, r') ∧
      (answer (do return .ack (← consumeBatch A ps)) r).2.replica = r'.replica ∧
      r'.channel.Pauses (answer (do return .ack (← consumeBatch A ps)) r).2.channel := by
  rcases hdone : (consumeBatch A ps).perform r with ⟨e | key, r'⟩
  · rw [answer_of_error (perform_bind_error hdone)]
    exact ⟨_, r', rfl, rfl, .disconnected _⟩
  · rw [answer_bind_ok hdone]
    exact ⟨_, r', rfl, rfl, .refl _⟩

/-- An answer that does not fit leaves the copy, and so does one that lets the channel resume. -/
theorem Receiver.answer_completeHandshake (response : HandshakeResponse) (r : Receiver Replica) :
    let out := answer (do
      completeHandshake Replica.applier response
      return .ack (← get).channel.lastConfirmed) r
    (∃ code text, out.1 = .reject code text ∧ out.2.replica = r.replica ∧
        r.channel.Pauses out.2.channel) ∨
      (∃ key, out.1 = .ack key) ∧ Aligned Replica.applier response r out.2 := by
  intro out
  rcases completeHandshake_spec Replica.applier response r with
    ⟨e, r', he, ⟨state, hsame, -⟩, -, hreplica⟩ | ⟨r', hok, haligned⟩
  · have hout : out = (e.rejection, { r' with channel := r'.channel.disconnected }) :=
      answer_of_error (perform_bind_error he)
    have hcopy : r'.replica = r.replica := by
      rcases hreplica with hreplica | ⟨-, e, hclear⟩
      · exact hreplica
      · cases hclear
    rw [hout, hsame]
    exact .inl ⟨_, _, rfl, hcopy, rfl, rfl, rfl, .inr (TargetChannel.settled_disconnected _)⟩
  · have hout : out = (.ack r'.channel.lastConfirmed, r') := answer_bind_ok hok _
    rw [hout]
    exact .inr ⟨⟨_, rfl⟩, haligned⟩

/-- A channel that resumes only got an answer. -/
theorem Receiver.Aligned.pauses {response : HandshakeResponse} {r r' : Receiver Replica}
    (h : Aligned Replica.applier response r r') (hkept : response.discardLocalState = false) :
    r'.replica = r.replica ∧ r.channel.Pauses r'.channel := by
  obtain ⟨hstaged, hreplica, hbehind⟩ := h.resumed hkept
  exact ⟨hreplica, h.settings, hstaged, h.confirmed.trans hbehind.symm,
    .inr ⟨h.bulk, h.last.trans h.confirmed.symm⟩⟩

namespace Receipt

section

variable {ρ : Type} {A : Applier ρ} {x : Receipt ρ}

/-- The source that the connection was announced for. -/
def source? (x : Receipt ρ) : Option String :=
  match x.signal with
  | .frame i _ | .close i => (x.before.sessions i).source

/-- The packets that came. -/
def packets (x : Receipt ρ) : List Packet :=
  match x.signal with
  | .frame _ f => f.packets
  | .close _ => []

theorem discardedTo?_of_reject {code : RejectCode} {text : String}
    (h : (x.before.receive A x.signal).1 = some (.reject code text)) : x.discardedTo? A = none := by
  unfold discardedTo?
  rw [h]
  split
  · rename_i heq
    cases heq
  · rfl

theorem discardedTo?_of_signal (h : ∀ i response, x.signal ≠ .frame i (.handshakeReply response)) :
    x.discardedTo? A = none := by
  unfold discardedTo?
  split
  · rename_i i response key hsignal _
    exact absurd hsignal (h i response)
  · rfl

theorem discardedTo?_of_ack {i : Nat} {response : HandshakeResponse} {key : Nat}
    (hsignal : x.signal = .frame i (.handshakeReply response))
    (hreply : (x.before.receive A x.signal).1 = some (.ack key)) :
    x.discardedTo? A = if response.discardLocalState then some response.startKey else none := by
  unfold discardedTo?
  rw [hreply, hsignal]

end

/-- What the signal makes of the copy and of the channels of all sources. -/
inductive Works (x : Receipt Replica) (g : TargetGroup Replica) : Prop where
  | pauses (kept : x.discardedTo? Replica.applier = none)
      (replica : g.replica = x.before.group.replica)
      (channels : ∀ source, (x.before.group.channelFor source).Pauses (g.channelFor source))
  | consumes {source : String} {result : Except Error Nat} {r : Receiver Replica}
      (kept : x.discardedTo? Replica.applier = none) (comes : x.source? = some source)
      (consumed : (Receiver.consumeBatch Replica.applier x.packets).perform
        (x.before.group.receiverOf (x.before.group.channelFor source)) = (result, r))
      (replica : g.replica = r.replica) (channel : r.channel.Pauses (g.channelFor source))
      (others : ∀ other, other ≠ source → g.channelFor other = x.before.group.channelFor other)
  | discards {source : String} {key : Nat} (discarded : x.discardedTo? Replica.applier = some key)
      (comes : x.source? = some source) (started : 1 ≤ key)
      (replica : g.replica = x.before.group.replica.clear)
      (settings : (g.channelFor source).settings = (x.before.group.channelFor source).settings)
      (staged : (g.channelFor source).staged = [])
      (confirmed : (g.channelFor source).lastConfirmed = key - 1)
      (settled : (g.channelFor source).Settled)
      (others : ∀ other, other ≠ source → g.channelFor other = x.before.group.channelFor other)

section

variable {t : Connections Replica} {i n : Nat} {f : Frame} {source : String} {c : TargetChannel}

/-- The channel of a connection consumes the packets that a frame carries. -/
theorem works_consumes (h : t.Bound) (hmulti : t.group.attachPolicy = .multiSource)
    (hannounced : t.sessions i = ⟨some source, some n⟩) (hc : t.group.channels[n]? = some c)
    (hsource : c.source = source) {ps : List Packet} (hps : f.packets = ps)
    (hf : ∀ response, f ≠ .handshakeReply response) :
    Works ⟨t, .frame i f⟩ (t.group.hosting n (Receiver.answer (do
      return .ack (← Receiver.consumeBatch Replica.applier ps)) (t.group.receiverOf c)).2) := by
  subst hps hsource
  obtain ⟨hown, hothers⟩ := h.placed.channelFor_hosting hmulti hc (Receiver.answer (do
    return .ack (← Receiver.consumeBatch Replica.applier f.packets)) (t.group.receiverOf c)).2
  have hcomes : source? (⟨t, .frame i f⟩ : Receipt Replica) = some c.source := by
    show (t.sessions i).source = _
    rw [hannounced]
  obtain ⟨result, r, hdone, hreplica, hchannel⟩ :=
    Receiver.answer_consumeBatch f.packets (t.group.receiverOf c)
  rw [← h.placed.channelFor_eq hmulti hc] at hdone
  refine .consumes (discardedTo?_of_signal fun j response heq => ?_) hcomes hdone hreplica
    (hown ▸ hchannel) hothers
  cases heq
  exact hf response rfl

/-- The channel of a connection takes an answer. -/
theorem works_reply (h : t.Bound) (hmulti : t.group.attachPolicy = .multiSource)
    (hannounced : t.sessions i = ⟨some source, some n⟩) (hc : t.group.channels[n]? = some c)
    (hsource : c.source = source) {response : HandshakeResponse} {act : Action (Receiver Replica) Frame}
    (hwork : (Frame.handshakeReply response).work? Replica.applier = some act)
    (hreply : (t.receive Replica.applier (.frame i (.handshakeReply response))).1
      = some (Receiver.answer act (t.group.receiverOf c)).1) :
    Works ⟨t, .frame i (.handshakeReply response)⟩
      (t.group.hosting n (Receiver.answer act (t.group.receiverOf c)).2) := by
  subst hsource
  cases hwork
  rcases Receiver.answer_completeHandshake response (t.group.receiverOf c) with
    ⟨code, text, hrejects, hreplica, hchannel⟩ | ⟨⟨key, hacks⟩, haligned⟩
  · exact .pauses (discardedTo?_of_reject (hreply.trans (congrArg some hrejects))) hreplica
      (h.placed.pauses_hosting hmulti hc hchannel)
  · have hkept := discardedTo?_of_ack (x := ⟨t, .frame i (.handshakeReply response)⟩) rfl
      (hreply.trans (congrArg some hacks))
    cases hdiscard : response.discardLocalState with
    | false =>
      obtain ⟨hreplica, hchannel⟩ := haligned.pauses hdiscard
      exact .pauses (by rw [hkept, hdiscard]; rfl) hreplica (h.placed.pauses_hosting hmulti hc hchannel)
    | true =>
      obtain ⟨hown, hothers⟩ := h.placed.channelFor_hosting hmulti hc
        (Receiver.answer _ (t.group.receiverOf c)).2
      have hfor := h.placed.channelFor_eq hmulti hc
      have hcomes : source? (⟨t, .frame i (.handshakeReply response)⟩ : Receipt Replica)
          = some c.source := by
        show (t.sessions i).source = _
        rw [hannounced]
      obtain ⟨hstaged, hcleared⟩ := haligned.discarded hdiscard
      have hreplica : t.group.replica.clear = _ := congrArg Prod.snd hcleared
      have hsettled : (Receiver.answer _ (t.group.receiverOf c)).2.channel.Settled :=
        ⟨haligned.bulk, haligned.last.trans haligned.confirmed.symm⟩
      rw [← hown] at hstaged hsettled
      exact .discards (by rw [hkept, hdiscard]; rfl) hcomes haligned.started hreplica.symm
        ((congrArg (·.settings) hown).trans (haligned.settings.trans (congrArg (·.settings) hfor.symm)))
        hstaged ((congrArg (·.lastConfirmed) hown).trans haligned.confirmed) hsettled hothers

end

/-- Every signal does one of these. -/
theorem works (x : Receipt Replica) (h : x.before.Bound)
    (hmulti : x.before.group.attachPolicy = .multiSource)
    (hexact : ∀ source, (x.before.group.channelFor source).Exact) :
    x.Works (x.before.receive Replica.applier x.signal).2.group := by
  obtain ⟨t, signal⟩ := x
  obtain ⟨out, hout⟩ : ∃ out, out = t.receive Replica.applier signal := ⟨_, rfl⟩
  have hturn := h.turn (A := Replica.applier) signal
  have hrejected : ∀ {code text t'}, out = (some (.reject code text), t') →
      discardedTo? Replica.applier ⟨t, signal⟩ = none := fun heq =>
    discardedTo?_of_reject (by rw [← hout, heq])
  show Works ⟨t, signal⟩ (t.receive Replica.applier signal).2.group
  rw [← hout] at hturn ⊢
  cases hturn with
  | refused => exact .pauses (hrejected rfl) rfl fun _ => .refl _
  | @opened i n source group g c c' hattaches hc hsource hasked hstands =>
    have hmulti' : g.attachPolicy = .multiSource := hattaches.follows.policy.trans hmulti
    have hfor : t.group.channelFor source = c := by
      rw [← hattaches.others hmulti, ← hsource]
      exact hattaches.placed.channelFor_eq hmulti' hc
    have hsettled := (Receiver.requestHandshake_exact (r := g.receiverOf c) (hfor ▸ hexact source)).2
    rw [hasked] at hsettled
    refine .pauses (discardedTo?_of_signal fun _ _ heq => by cases heq) hattaches.replica fun other => ?_
    rw [← hattaches.others hmulti]
    exact hattaches.placed.pauses_hosting hmulti' hc (.of_stands hstands hsettled) other
  | @failed i n source group g code text hattaches =>
    have hdetaches := hattaches.placed.detach source
    refine .pauses (hrejected rfl) (hdetaches.replica.trans hattaches.replica) fun other => ?_
    rw [← hattaches.others hmulti]
    exact hdetaches.pauses other
  | @closed i =>
    refine .pauses (discardedTo?_of_signal fun _ _ heq => by cases heq) ?_ fun other => ?_
    · show ((t.sessions i).source.elim t.group t.group.detach).replica = t.group.replica
      cases (t.sessions i).source with
      | none => rfl
      | some source => exact (h.placed.detach source).replica
    · show (t.group.channelFor other).Pauses
        (((t.sessions i).source.elim t.group t.group.detach).channelFor other)
      cases (t.sessions i).source with
      | none => exact .refl _
      | some source => exact (h.placed.detach source).pauses other
  | @worked i n f act source c hannounced hc hsource hwork =>
    cases f with
    | connect | handshake | ack => cases hwork
    | reject code text =>
      obtain ⟨c', hdone, hstands, hsettled, -⟩ := Receiver.answer_reject hwork (t.group.receiverOf c)
      refine .pauses (discardedTo?_of_signal fun _ _ heq => by cases heq) (congrArg (·.replica) hdone)
        fun other => h.placed.pauses_hosting hmulti hc ?_ other
      rw [hdone]
      exact .of_stands hstands hsettled
    | packet p =>
      cases hwork
      show Works _ (t.group.hosting n (Receiver.answer _ (t.group.receiverOf c)).2)
      rw [Receiver.answer_packet]
      exact works_consumes h hmulti hannounced hc hsource rfl fun _ heq => by cases heq
    | batch ps =>
      cases hwork
      exact works_consumes h hmulti hannounced hc hsource rfl fun _ heq => by cases heq
    | handshakeReply response =>
      exact works_reply h hmulti hannounced hc hsource hwork (congrArg (·.1) hout).symm

end Receipt

end GroupReplication
