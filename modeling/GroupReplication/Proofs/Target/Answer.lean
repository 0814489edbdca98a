/-
How a connection comes to its answer. A frame that asks something of a channel acts through that channel
alone, whichever connection it came over; every other frame is refused and changes nothing.
-/
import GroupReplication.Proofs.Target.Exact
import GroupReplication.Proofs.Target.SingleSource

namespace GroupReplication

open GroupReplication.Action

variable {ρ : Type}

/-- What a frame that goes to a channel asks of it. -/
def Frame.work? (A : Applier ρ) : Frame → Option (Action (Receiver ρ) Frame)
  | .handshakeReply response => some do
    Receiver.completeHandshake A response
    return .ack (← get).channel.lastConfirmed
  | .packet p => some do
    return .ack (← Receiver.consume A p)
  | .batch ps => some do
    return .ack (← Receiver.consumeBatch A ps)
  | .reject .resumeKeyCompacted _ => some do
    Receiver.onChannel fun c => c.disconnected.requiringResync
    return .handshake (← Receiver.requestHandshake)
  | .reject .. => some do
    Receiver.onChannel (·.disconnected)
    return .ack (← get).channel.lastConfirmed
  | .connect .. | .handshake _ | .ack _ => none

/-- The answer of a channel, and what the work leaves. A failure disconnects the channel. -/
def Receiver.answer (act : Action (Receiver ρ) Frame) (r : Receiver ρ) : Frame × Receiver ρ :=
  match act.perform r with
  | (.ok reply, r) => (reply, r)
  | (.error e, r) => (e.rejection, { r with channel := r.channel.disconnected })

section

variable {act : Action (Receiver ρ) Frame} {r r' : Receiver ρ}

theorem Receiver.answer_of_ok {reply : Frame} (h : act.perform r = (.ok reply, r')) :
    answer act r = (reply, r') := by
  rw [answer, h]

theorem Receiver.answer_of_error {e : Error} (h : act.perform r = (.error e, r')) :
    answer act r = (e.rejection, { r' with channel := r'.channel.disconnected }) := by
  rw [answer, h]

theorem Receiver.answer_bind_ok {α : Type} {first : Action (Receiver ρ) α} {a : α}
    (h : first.perform r = (.ok a, r')) (next : α → Action (Receiver ρ) Frame) :
    answer (first >>= next) r = answer (next a) r' := by
  rw [answer, answer, perform_bind_ok h]

/-- A single packet is answered as a batch of one. -/
theorem Receiver.answer_packet (A : Applier ρ) (p : Packet) (r : Receiver ρ) :
    answer (do return .ack (← consume A p)) r = answer (do return .ack (← consumeBatch A [p])) r := by
  simp only [answer, perform_bind, perform_consumeBatch_singleton]

end

/-- A source that refuses is disconnected, or asked for a handshake once more. -/
theorem Receiver.answer_reject {A : Applier ρ} {code : RejectCode} {text : String}
    {act : Action (Receiver ρ) Frame} (hwork : Frame.work? A (.reject code text) = some act)
    (r : Receiver ρ) : ∃ c, (answer act r).2 = { r with channel := c } ∧ r.channel.Stands c ∧
      c.Settled ∧ c.state ≠ .active := by
  have hdisconnects : ∀ {act : Action (Receiver ρ) Frame}, act = (do
      onChannel (·.disconnected)
      return .ack (← get).channel.lastConfirmed) → ∃ c, (answer act r).2 = { r with channel := c } ∧
        r.channel.Stands c ∧ c.Settled ∧ c.state ≠ .active := by
    rintro act rfl
    exact ⟨r.channel.disconnected, rfl, .disconnected _, TargetChannel.settled_disconnected _,
      TargetChannel.disconnected_state _⟩
  cases code with
  | resumeKeyCompacted =>
    cases hwork
    let c := r.channel.disconnected.requiringResync
    have hstands : r.channel.Stands c := ⟨rfl, rfl, rfl, rfl, rfl, fun _ => rfl⟩
    have hsettled : c.Settled := ⟨rfl, rfl⟩
    have hexact := requestHandshake_exact (r := { r with channel := c }) hsettled.exact
    rcases requestHandshake_spec { r with channel := c } with ⟨e, he⟩ | ⟨c', hok, hasked, hstate, -⟩
    · rw [answer_of_error ((perform_onChannel_bind _ _ r).trans (perform_bind_error he))]
      exact ⟨_, rfl, hstands.trans (.disconnected c), TargetChannel.settled_disconnected _,
        TargetChannel.disconnected_state _⟩
    · rw [hok] at hexact
      rw [answer_of_ok ((perform_onChannel_bind _ _ r).trans ((perform_bind_ok hok).trans rfl))]
      exact ⟨c', rfl, hstands.trans hasked, hexact.2, by rw [hstate]; exact fun heq => nomatch heq⟩
  | _ => exact hdisconnects (Option.some.inj hwork).symm

/-- The group after the channel with this number did some work. -/
def TargetGroup.hosting (n : Nat) (r : Receiver ρ) (g : TargetGroup ρ) : TargetGroup ρ :=
  { g with replica := r.replica, journal := r.journal, channels := g.channels.set n r.channel }

/-- The receiver that a channel of the group works as. -/
def TargetGroup.receiverOf (c : TargetChannel) (g : TargetGroup ρ) : Receiver ρ :=
  ⟨c, g.replica, g.journal⟩

variable {A : Applier ρ} {g : TargetGroup ρ} {s : Session} {n : Nat} {c : TargetChannel}

theorem TargetGroup.perform_onChannel_found {α : Type} (hc : g.channels[n]? = some c)
    (act : Action (Receiver ρ) α) :
    (TargetGroup.onChannel n act).perform g = ((act.perform (g.receiverOf c)).1,
      g.hosting n (act.perform (g.receiverOf c)).2) := by
  simp only [TargetGroup.onChannel, perform_get_bind, hc, perform_set_bind, perform_decided]
  rfl

theorem TargetGroup.getElem?_hosting_self (hc : g.channels[n]? = some c) (r : Receiver ρ) :
    (g.hosting n r).channels[n]? = some r.channel :=
  List.getElem?_set_self (List.getElem?_eq_some_iff.1 hc).1

theorem TargetGroup.getElem?_hosting_other {k : Nat} (hk : k ≠ n) (r : Receiver ρ) :
    (g.hosting n r).channels[k]? = g.channels[k]? := List.getElem?_set_ne hk.symm

/-- Nothing changes by work that was not done. -/
theorem TargetGroup.hosting_receiverOf (hc : g.channels[n]? = some c) :
    g.hosting n (g.receiverOf c) = g := by
  have hchannels : g.channels.set n c = g.channels := by
    refine List.ext_getElem? fun k => ?_
    by_cases hk : n = k
    · subst hk
      rw [List.getElem?_set_self (List.getElem?_eq_some_iff.1 hc).1, hc]
    · rw [List.getElem?_set_ne hk]
  rw [TargetGroup.hosting, TargetGroup.receiverOf, hchannels]

theorem TargetGroup.disconnect_found (hc : g.channels[n]? = some c) :
    g.disconnect n = g.hosting n ⟨c.disconnected, g.replica, g.journal⟩ := by
  have hchannels : g.channels.modify n (·.disconnected) = g.channels.set n c.disconnected := by
    refine List.ext_getElem? fun k => ?_
    by_cases hk : n = k
    · subst hk
      rw [List.getElem?_set_self (List.getElem?_eq_some_iff.1 hc).1, List.getElem?_modify, hc]
      simp
    · rw [List.getElem?_set_ne hk, List.getElem?_modify]
      simp [hk]
  rw [TargetGroup.disconnect, TargetGroup.hosting, hchannels]

theorem TargetGroup.disconnect_hosting (hc : g.channels[n]? = some c) (r : Receiver ρ) :
    (g.hosting n r).disconnect n = g.hosting n { r with channel := r.channel.disconnected } := by
  rw [TargetGroup.disconnect_found (TargetGroup.getElem?_hosting_self hc r)]
  simp only [TargetGroup.hosting, List.set_set]

theorem Session.withChannel_found (hs : s.channel = some n) (hc : g.channels[n]? = some c)
    (act : Action (Receiver ρ) Frame) :
    withChannel act s g = ((Receiver.answer act (g.receiverOf c)).1, s,
      g.hosting n (Receiver.answer act (g.receiverOf c)).2) := by
  simp only [withChannel, hs, TargetGroup.perform_onChannel_found hc, Receiver.answer]
  rcases act.perform (g.receiverOf c) with ⟨e | reply, r⟩
  · simp only [TargetGroup.disconnect_hosting hc]
  · rfl

theorem Session.receive_of_work {f : Frame} {act : Action (Receiver ρ) Frame}
    (hwork : f.work? A = some act) : receive A f = withChannel act := by
  cases f with
  | reject code text => cases code <;> cases hwork <;> rfl
  | handshakeReply | packet | batch => cases hwork; rfl
  | connect | handshake | ack => cases hwork

/-- A frame that asks something of a channel acts through it alone: which connection it comes over does
not matter beyond that. -/
theorem Session.receive_found {f : Frame} {act : Action (Receiver ρ) Frame} (hwork : f.work? A = some act)
    (hs : s.channel = some n) (hc : g.channels[n]? = some c) :
    receive A f s g = ((Receiver.answer act (g.receiverOf c)).1, s,
      g.hosting n (Receiver.answer act (g.receiverOf c)).2) := by
  rw [receive_of_work hwork, withChannel_found hs hc]

/-- Whatever work is done, the channel stays that of its source. -/
theorem Receiver.source_answer {f : Frame} {act : Action (Receiver ρ) Frame}
    (hwork : f.work? A = some act) (hc : g.channels[n]? = some c) :
    (Receiver.answer act (g.receiverOf c)).2.channel.source = c.source := by
  have hevolves := (Session.receive_evolves (A := A) (f := f)
    (by rintro source group rfl; cases hwork) ⟨none, some n⟩ g).2
  rw [Session.receive_found hwork rfl hc] at hevolves
  obtain ⟨c', hc', hchannel⟩ := hevolves.channels n _ (TargetGroup.getElem?_hosting_self hc _)
  rw [hc] at hc'
  cases hc'
  exact hchannel.source

/-- Every other frame is refused on any connection that was announced. -/
theorem Session.receive_refused {f : Frame} (hwork : f.work? A = none) (g : TargetGroup ρ) :
    ∃ code text, ∀ s : Session, s.source.isSome = true →
      receive A f s g = (.reject code text, s, g) := by
  cases f with
  | connect name group =>
    by_cases hgroup : group = g.name
    · refine ⟨.protocol, "session already connected", fun s hs => ?_⟩
      simp only [receive, connect, hgroup, ne_eq, not_true_eq_false, if_false, hs, if_true]
    · refine ⟨.unknownGroup, "unknown group " ++ group, fun s hs => ?_⟩
      simp only [receive, connect, ne_eq, hgroup, not_false_eq_true, if_true]
  | handshake | ack => exact ⟨_, _, fun _ _ => rfl⟩
  | reject code text => cases code <;> cases hwork
  | handshakeReply | packet | batch => cases hwork

/-- So is every frame but a connect on one that was not. -/
theorem Session.receive_unannounced {f : Frame} (hs : s.channel = none)
    (hconnect : ∀ source group, f ≠ .connect source group) :
    ∃ code text, receive A f s g = (.reject code text, s, g) := by
  have hwithout : ∀ act : Action (Receiver ρ) Frame,
      ∃ code text, withChannel act s g = (.reject code text, s, g) := fun act => by
    simp only [withChannel, hs]
    exact ⟨_, _, rfl⟩
  cases f with
  | connect source group => exact absurd rfl (hconnect source group)
  | handshake | ack => exact ⟨_, _, rfl⟩
  | reject code text => cases code <;> exact hwithout _
  | handshakeReply | packet | batch => exact hwithout _

end GroupReplication
