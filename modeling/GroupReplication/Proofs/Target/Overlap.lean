/-
Two connections of one source. Connections are not fenced: an older one goes on acting on the channel
that it was given, which is the same one unless a single active source took the slot in between, and
its close takes the source's seat away from the newer one. What an older connection cannot do is to
reach another channel, or to change what is confirmed other than by packets that an active channel
takes in and by the answer that a channel is waiting for.
-/
import GroupReplication.Proofs.Frame.Limits
import GroupReplication.Proofs.Target.Placed

namespace GroupReplication

open GroupReplication.Action

/-- What a frame can make of the channel that it goes to. -/
inductive TargetChannel.Obeys (f : Frame) (c : TargetChannel) : TargetChannel → Prop where
  | rests : Obeys f c c
  | drops {c' : TargetChannel} (stands : c.Stands c') (bulk : c'.bulk = none)
      (idle : c'.state ≠ .active) : Obeys f c c'
  | consumes {c' : TargetChannel} (carries : f.packets ≠ []) (active : c.state = .active)
      (source : c'.source = c.source) (confirms : c.lastConfirmed ≤ c'.lastConfirmed) : Obeys f c c'
  | starts {c' : TargetChannel} {response : HandshakeResponse} (answers : f = .handshakeReply response)
      (waiting : c.state = .handshaking) (source : c'.source = c.source)
      (confirmed : c'.lastConfirmed = response.startKey - 1) : Obeys f c c'

namespace Receiver

variable {ρ : Type} {A : Applier ρ}

theorem obeys_completeHandshake (response : HandshakeResponse) (r : Receiver ρ) :
    r.channel.Obeys (.handshakeReply response) (answer (do
      completeHandshake A response
      return .ack (← get).channel.lastConfirmed) r).2.channel := by
  rcases completeHandshake_spec A response r with
    ⟨e, r', he, ⟨state, hsame, -⟩, -⟩ | ⟨r', hok, haligned⟩
  · rw [answer_of_error (perform_bind_error he), hsame]
    exact .drops ⟨rfl, rfl, rfl, rfl, rfl, id⟩ rfl (TargetChannel.disconnected_state _)
  · rw [answer_bind_ok hok]
    exact .starts rfl haligned.asked haligned.source haligned.confirmed

/-- Packets do nothing unless the channel is active, and then confirm more, if anything. -/
theorem obeys_consumeBatch {f : Frame} (ps : List Packet) (hf : f.packets = ps) (r : Receiver ρ) :
    r.channel.Obeys f (answer (do return .ack (← consumeBatch A ps)) r).2.channel := by
  cases ps with
  | nil => exact .rests
  | cons p ps =>
    by_cases hactive : r.channel.state = .active
    · have hdigests : r.Digests A False ((consumeBatch A (p :: ps)).perform r).2 :=
        digests_consumeBatch False.elim r (.refl r)
      have hcarries : f.packets ≠ [] := by rw [hf]; exact List.cons_ne_nil p ps
      rcases hdone : (consumeBatch A (p :: ps)).perform r with ⟨e | key, r'⟩
      · rw [hdone] at hdigests
        rw [answer_of_error (perform_bind_error hdone)]
        exact .consumes hcarries hactive hdigests.channel.source hdigests.channel.confirms
      · rw [hdone] at hdigests
        rw [answer_bind_ok hdone]
        exact .consumes hcarries hactive hdigests.channel.source hdigests.channel.confirms
    · obtain ⟨e, he⟩ := consumeBatch_refused (A := A) ps (p := p) fun htakes => hactive htakes.active
      rw [answer_of_error (perform_bind_error he)]
      exact .drops (.disconnected _) rfl (TargetChannel.disconnected_state _)

/-- Whatever a frame asks of a channel, the channel does one of these. -/
theorem obeys_answer {f : Frame} {act : Action (Receiver ρ) Frame} (hwork : f.work? A = some act)
    (r : Receiver ρ) : r.channel.Obeys f (answer act r).2.channel := by
  cases f with
  | handshakeReply response =>
    cases hwork
    exact obeys_completeHandshake response r
  | packet p =>
    cases hwork
    rw [answer_packet]
    exact obeys_consumeBatch [p] rfl r
  | batch ps =>
    cases hwork
    exact obeys_consumeBatch ps rfl r
  | reject code text =>
    obtain ⟨c, hdone, hstands, hsettled, hidle⟩ := answer_reject hwork r
    rw [hdone]
    exact .drops hstands hsettled.bulk hidle
  | connect | handshake | ack => cases hwork

end Receiver

/-- In any run, of two open connections of one source: each holds a channel of the source, and the two
hold the same one if any number of sources can be attached. A frame over the first leaves the attached
sources and every other channel as they are. If the connections share the channel, the frame is answered
and acts as it would over the second. A frame that asks nothing of a channel changes nothing; any other
leaves what is confirmed and staged as it is, unless it brings packets to an active channel or the answer
that a channel is waiting for. And closing the first detaches the source: the channel in its slot is
disconnected, with what it confirmed and staged, and nothing else changes. -/
theorem Reception.connections_overlap {ρ : Type} (A : Applier ρ) (members : Membership)
    (policy : AttachPolicy) (settings : ConflictSettings) (replica : ρ) (signals : List Signal)
    (i j : Nat) (source : String) :
    let t := ((start (.new members policy settings replica)).steps A signals).connections
    let g := t.group
    i ≠ j → (t.sessions i).source = some source → (t.sessions j).source = some source →
    ∃ n m c, t.sessions i = ⟨some source, some n⟩ ∧ t.sessions j = ⟨some source, some m⟩ ∧
      g.channels[n]? = some c ∧ c.source = source ∧ (policy = .multiSource → n = m) ∧
      (∀ f, ∃ reply g' c', (t.sessions i).receive A f g = (reply, t.sessions i, g') ∧
        g'.attachedSources = g.attachedSources ∧ (∀ k, k ≠ n → g'.channels[k]? = g.channels[k]?) ∧
        (n = m → (t.sessions j).receive A f g = (reply, t.sessions j, g')) ∧
        (f.work? A = none → g' = g) ∧ g'.channels[n]? = some c' ∧ c.Obeys f c') ∧
      ∃ g', (t.sessions i).close g = (.new, g') ∧
        (∀ other, other ∈ g'.attachedSources ↔ other ∈ g.attachedSources ∧ other ≠ source) ∧
        g'.channelOf? source = (g.channelOf? source).map (·.disconnected) ∧
        (∀ k, (∀ slot, g.slots.get? source = some slot → slot.channel ≠ k) →
          g'.channels[k]? = g.channels[k]?) ∧
        g'.replica = g.replica ∧ g'.journal = g.journal := by
  intro t g hne hi hj
  obtain ⟨hbound, hfollows⟩ : t.Bound ∧ _ :=
    bound_steps (A := A) (Connections.Bound.start members policy settings replica) signals
  obtain ⟨n, c, hsession, hc, hsource⟩ := hbound.channel_of_source hi
  obtain ⟨m, c', hsession', hc', hsource'⟩ := hbound.channel_of_source hj
  refine ⟨n, m, c, hsession, hsession', hc, hsource, fun hpolicy => ?_, fun f => ?_, ?_⟩
  · have hmulti : g.attachPolicy = .multiSource := hfollows.policy.trans hpolicy
    exact hbound.placed.channel_unique hmulti hc hc' (hsource'.trans hsource.symm)
  · cases hwork : f.work? A with
    | none =>
      obtain ⟨code, text, hreply⟩ := Session.receive_refused hwork g
      exact ⟨.reject code text, g, c, hreply _ (by rw [hi]; rfl), rfl, fun _ _ => rfl,
        fun _ => hreply _ (by rw [hj]; rfl), fun _ => rfl, hc, .rests⟩
    | some act =>
      have hreply : ∀ s : Session, s.channel = some n → _ := fun s hs =>
        Session.receive_found hwork hs hc
      refine ⟨_, _, _, hreply _ (by rw [hsession]), rfl,
        fun k hk => TargetGroup.getElem?_hosting_other hk _, ?_, (fun hnone => by cases hnone),
        TargetGroup.getElem?_hosting_self hc _, Receiver.obeys_answer hwork (g.receiverOf c)⟩
      rintro rfl
      exact hreply _ (by rw [hsession'])
  · have hdetaches := hbound.placed.detach source
    refine ⟨g.detach source, ?_, hdetaches.attached, hdetaches.channel, hdetaches.rest,
      hdetaches.replica, hdetaches.journal⟩
    rw [hsession]
    rfl

/-- The primary comes back before its old connection is gone. -/
def Reception.overtaken : List Signal :=
  [.frame 0 (.connect "primary" "orders"), .frame 0 (.handshakeReply ⟨1, true, none⟩),
    .frame 0 (writeAt 1 "a"), .frame 1 (.connect "primary" "orders")]

theorem Reception.connections_overlap_overtaken :
    let t := ((start (.new (.openTo "orders") .singleActiveSource .standard (.empty false))).steps
      Replica.applier overtaken).connections
    (t.sessions 0).source = some "primary" ∧ (t.sessions 1).source = some "primary" ∧
      (∀ f, ((t.sessions 0).receive Replica.applier f t.group).1
        = ((t.sessions 1).receive Replica.applier f t.group).1) ∧
      "primary" ∉ ((t.sessions 0).close t.group).2.attachedSources := by
  intro t
  have hearlier : (t.sessions 0).source = some "primary" := by decide +kernel
  have hlater : (t.sessions 1).source = some "primary" := by decide +kernel
  obtain ⟨n, m, c, hsession, hsession', -, -, -, hframe, g', hclose, hattached, -⟩ :=
    connections_overlap Replica.applier (.openTo "orders") .singleActiveSource .standard (.empty false)
      overtaken 0 1 "primary" (by decide) hearlier hlater
  have hshared : n = m := by
    have hsame : (t.sessions 0).channel = (t.sessions 1).channel := by decide +kernel
    rw [hsession, hsession'] at hsame
    exact Option.some.inj hsame
  refine ⟨hearlier, hlater, fun f => ?_, ?_⟩
  · obtain ⟨reply, g', c', hreply, -, -, hreply', -⟩ := hframe f
    exact (congrArg Prod.fst hreply).trans (congrArg Prod.fst (hreply' hshared)).symm
  · rw [hclose]
    exact fun hmem => ((hattached _).1 hmem).2 rfl

/-- Although the new connection has been asked for a handshake, the old one can disconnect the channel by
a packet or by its close, which detaches the source as well, and it can take the handshake over. Once the
new one has completed the handshake, a packet over the old one is confirmed. -/
theorem Reception.connections_not_fenced :
    let after (signals : List Signal) : Connections Replica :=
      ((start (.new (.openTo "orders") .singleActiveSource .standard (.empty false))).steps
        Replica.applier signals).connections
    let seen (signals : List Signal) : List (ChannelState × Nat) × List String :=
      ((after (overtaken ++ signals)).group.channels.map fun c => (c.state, c.lastConfirmed),
        (after (overtaken ++ signals)).group.attachedSources)
    ((after (overtaken.take 3)).receive Replica.applier (.frame 1 (.connect "primary" "orders"))).1
        = some (.handshake ⟨false, 1, none⟩) ∧
      seen [] = ([(.handshaking, 1)], ["primary"]) ∧
      seen [.frame 0 (writeAt 2 "b")] = ([(.disconnected, 1)], ["primary"]) ∧
      seen [.close 0] = ([(.disconnected, 1)], []) ∧
      seen [.frame 0 (.handshakeReply ⟨2, false, none⟩)] = ([(.active, 1)], ["primary"]) ∧
      seen [.frame 1 (.handshakeReply ⟨2, false, none⟩)] = ([(.active, 1)], ["primary"]) ∧
      seen [.frame 1 (.handshakeReply ⟨2, false, none⟩), .frame 0 (writeAt 2 "b")]
        = ([(.active, 2)], ["primary"]) := by
  decide +kernel

end GroupReplication
