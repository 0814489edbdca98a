/-
A target whose source never tells it that its resume key is gone. Once a handshake was completed its
copy only changes by what is applied to it, and it has confirmed at least what its source counts as
confirmed. Every other frame and every loss of the connection keeps this (`Session.Anchored`).
-/
import GroupReplication.Proofs.Frame.RoundTrip
import GroupReplication.Proofs.Target.Digest
import GroupReplication.Proofs.Target.Session

namespace GroupReplication

open GroupReplication.Action

/-! ## Receivers -/

namespace Receiver

variable {ρ : Type} {A : Applier ρ} {low? : Option Nat} {since? : Option ρ}

/-- The target has confirmed what its source counts as confirmed (`low?`), unless it is about to start
over. If a handshake was completed before the copy was `since?`, there is no start over, and the copy
came about by work on that. -/
structure Steady (A : Applier ρ) (low? : Option Nat) (since? : Option ρ) (r : Receiver ρ) : Prop where
  bounded : r.channel.Bounded
  behind : r.channel.firstHandshakePending = true ∨
    ∃ low, low? = some low ∧ low ≤ r.channel.lastConfirmed
  done : 0 < r.channel.stats.handshakes → r.channel.firstHandshakePending = false
  since : ∀ copy, since? = some copy →
    r.channel.firstHandshakePending = false ∧ A.Works copy r.replica

theorem Steady.onward {r r' : Receiver ρ} (h : r.Steady A low? since?)
    (hcontinues : r.channel.Continues r'.channel) (hbounded : r'.channel.Bounded)
    (hworks : ∀ copy, A.Works copy r.replica → A.Works copy r'.replica) : r'.Steady A low? since? where
  bounded := hbounded
  behind := h.behind.imp hcontinues.pending.trans fun ⟨low, hlow, hle⟩ =>
    ⟨low, hlow, Nat.le_trans hle hcontinues.confirms⟩
  done hpos := hcontinues.pending.trans (h.done (hcontinues.handshakes ▸ hpos))
  since copy hcopy := by
    obtain ⟨hpending, hwork⟩ := h.since copy hcopy
    exact ⟨hcontinues.pending.trans hpending, hworks copy hwork⟩

/-- Taking packets in keeps a target steady. -/
theorem Steady.digested {r r' : Receiver ρ} (h : r.Steady A low? since?)
    (hdigests : r.Digests A True r') : r'.Steady A low? since? :=
  h.onward hdigests.channel.toContinues (hdigests.channel.bounded trivial h.bounded) hdigests.works

theorem keeps_onChannel {f : TargetChannel → TargetChannel}
    (hcontinues : ∀ c : TargetChannel, c.Continues (f c)) (hbounded : ∀ c, c.Bounded → (f c).Bounded) :
    Keeps (Steady A low? since?) (onChannel f) :=
  fun r h => h.onward (hcontinues r.channel) (hbounded _ h.bounded) fun _ => id

theorem keeps_disconnected : Keeps (Steady A low? since?) (onChannel (·.disconnected)) :=
  keeps_onChannel (fun _ => ⟨rfl, rfl, Nat.le_refl _⟩) fun _ h => h.disconnected

theorem keeps_moveTo (next : ChannelState) : Keeps (Steady A low? since?) (moveTo next) :=
  .bind .get fun _ => .bind (.decided _) fun _ =>
    keeps_onChannel (fun _ => ⟨rfl, rfl, Nat.le_refl _⟩) fun _ h => ⟨h.confirmed, h.received, h.held⟩

theorem keeps_requestHandshake : Keeps (Steady A low? since?) requestHandshake := by
  refine .bind .get fun r => ?_
  have hrest : Keeps (Steady A low? since?) (do
      moveTo .handshaking
      return (← get).channel.request) :=
    .bind (keeps_moveTo _) fun _ => .bind .get fun _ => .pure _
  exact Keeps.ite (.bind keeps_disconnected fun _ => hrest) hrest

/-- The source's answer does not take the target back, and lets it drop its copy only if the target
asked for that. -/
theorem steady_completeHandshake {r : Receiver ρ} (h : r.Steady A low? since?)
    {response : HandshakeResponse} {low : Nat} (hlow : low? = some low)
    (hle : low ≤ response.startKey - 1) (hkey : response.startKey < 2 ^ 64)
    (hdiscard : response.discardLocalState = true → r.channel.firstHandshakePending = true) :
    ((completeHandshake A response).perform r).2.Steady A low? since? := by
  have hkept : ∀ copy, since? = some copy → response.discardLocalState = false := by
    intro copy hcopy
    cases hcase : response.discardLocalState with
    | false => rfl
    | true =>
      have hpending := hdiscard hcase
      rw [(h.since copy hcopy).1] at hpending
      cases hpending
  rcases completeHandshake_spec A response r with
    ⟨e, r', he, ⟨state, hsame, -⟩, -, hreplica⟩ | ⟨r', hok, haligned⟩
  · rw [he]
    show r'.Steady A low? since?
    refine ⟨?_, ?_, ?_, fun copy hcopy => ?_⟩
    · rw [hsame]
      exact ⟨h.bounded.confirmed, h.bounded.received, h.bounded.held⟩
    · rw [hsame]
      exact h.behind
    · rw [hsame]
      exact h.done
    · have hkeep := hkept copy hcopy
      rcases hreplica with hreplica | ⟨hdrop, -⟩
      · rw [hreplica, hsame]
        exact h.since copy hcopy
      · rw [hkeep] at hdrop
        cases hdrop
  · rw [hok]
    have hconfirmed := haligned.confirmed
    have hlast := haligned.last
    refine ⟨⟨?_, ?_, fun bulk hbulk => ?_⟩, .inr ⟨low, hlow, ?_⟩, fun _ => haligned.pending,
      fun copy hcopy => ⟨haligned.pending, ?_⟩⟩
    · show r'.channel.lastConfirmed < 2 ^ 64
      omega
    · show r'.channel.lastReceived < 2 ^ 64
      omega
    · rw [show r'.channel.bulk = none from haligned.bulk] at hbulk
      cases hbulk
    · show low ≤ r'.channel.lastConfirmed
      omega
    · rw [show r'.replica = r.replica from (haligned.resumed (hkept copy hcopy)).2.1]
      exact (h.since copy hcopy).2

end Receiver

/-! ## Connections -/

/-- The channel of a source at work on the copy of the group. -/
def TargetGroup.receiver {ρ : Type} (source : String) (g : TargetGroup ρ) : Receiver ρ :=
  ⟨g.orFresh source (g.channelOf? source), g.replica, g.journal⟩

theorem TargetGroup.Serves.receiver {ρ : Type} {source : String} {g : TargetGroup ρ}
    {c? : Option TargetChannel} (h : g.Serves source c?) :
    g.receiver source = ⟨g.orFresh source c?, g.replica, g.journal⟩ := by
  rw [TargetGroup.receiver, h.channelOf?]

theorem TargetGroup.Serves.receiver_some {ρ : Type} {source : String} {g : TargetGroup ρ}
    {c : TargetChannel} (h : g.Serves source (some c)) :
    g.receiver source = ⟨c, g.replica, g.journal⟩ := h.receiver

/-- What a target can answer: it refuses, asks for a handshake or says what it has confirmed. -/
inductive TargetChannel.Answers (c : TargetChannel) : Frame → Prop where
  | refuses (code : RejectCode) (text : String) : Answers c (.reject code text)
  | asks : Answers c (.handshake c.request)
  | confirms : Answers c (.ack c.lastConfirmed)

namespace TargetChannel.Answers

variable {c : TargetChannel} {reply : Frame}

theorem ordered (h : c.Answers reply) : reply.Ordered := by
  cases h <;> trivial

/-- The answer of a channel can be read as it was written. -/
theorem fits (h : c.Answers reply) (hbounded : c.Bounded) : reply.Fits := by
  cases h with
  | refuses => trivial
  | asks =>
    show c.request.lastConfirmed < 2 ^ 64
    rw [TargetChannel.request]
    split
    · exact Nat.two_pow_pos 64
    · exact hbounded.confirmed
  | confirms => exact hbounded.confirmed

end TargetChannel.Answers

/-- What a source may send that counts on `low?` at its target. It does not say that the resume key is
gone, lets the target start no earlier than counted on, and drop its copy only if the target is about
to start over. -/
def Frame.Onward (source : String) (low? : Option Nat) (pending : Bool) : Frame → Prop
  | .connect name _ => name = source
  | .handshakeReply response =>
    response.startKey < 2 ^ 64 ∧ (∃ low, low? = some low ∧ low ≤ response.startKey - 1) ∧
      (response.discardLocalState = true → pending = true)
  | .packet p => p.key < 2 ^ 64
  | .batch ps => ∀ p ∈ ps, p.key < 2 ^ 64
  | .reject code _ => code ≠ .resumeKeyCompacted
  | .handshake _ | .ack _ => True

namespace Session

variable {ρ : Type} {A : Applier ρ} {source : String} {low? : Option Nat} {since? : Option ρ}
  {s : Session} {g : TargetGroup ρ}

/-- A connection of the only source of a group, whose channel is steady. -/
structure Anchored (A : Applier ρ) (source : String) (low? : Option Nat) (since? : Option ρ)
    (s : Session) (g : TargetGroup ρ) : Prop where
  serves : ∃ c?, g.Serves source c? ∧ s.Feeds source c?
  steady : (g.receiver source).Steady A low? since?

/-- The frame is answered, and leaves the target steady. -/
def Rides (A : Applier ρ) (source : String) (low? : Option Nat) (since? : Option ρ)
    (out : Frame × Session × TargetGroup ρ) : Prop :=
  out.2.1.Anchored A source low? since? out.2.2 ∧ (out.2.2.receiver source).channel.Answers out.1

theorem Anchored.of_serves {c : TargetChannel} (hserves : g.Serves source (some c))
    (hsteady : Receiver.Steady A low? since? ⟨c, g.replica, g.journal⟩) :
    Anchored A source low? since? ⟨some source, some 0⟩ g :=
  ⟨⟨some c, hserves, .inr ⟨rfl, rfl⟩⟩, hserves.receiver_some ▸ hsteady⟩

/-- A refusal that changes nothing. -/
theorem Anchored.refused (h : s.Anchored A source low? since? g) (code : RejectCode) (text : String) :
    Rides A source low? since? (.reject code text, s, g) :=
  ⟨h, .refuses code text⟩

theorem connect_anchored (h : s.Anchored A source low? since? g) (group : String) :
    Rides A source low? since? (connect source group s g) := by
  obtain ⟨c?, hserves, hfeeds⟩ := h.serves
  have hsteady := h.steady
  rw [hserves.receiver] at hsteady
  have hkept := Receiver.keeps_requestHandshake _ hsteady
  rcases connect_cases hserves s group with ⟨code, text, hsame⟩ |
    ⟨g', hserves', hreplica, hjournal, -, -, ⟨e, r, hrequest, hconnect⟩ |
      ⟨request, r, hrequest, hconnect⟩⟩
  · rw [hsame]
    exact h.refused code text
  · rw [hrequest] at hkept
    obtain ⟨hdetached, hreplica', hjournal', -⟩ := (hserves'.holding r).detach
    rw [hconnect]
    refine ⟨⟨⟨_, hdetached, hfeeds.stays fun _ => rfl⟩, ?_⟩, .refuses _ _⟩
    rw [hdetached.receiver_some, hreplica', hjournal']
    exact Receiver.keeps_disconnected r hkept
  · rcases Receiver.requestHandshake_spec (⟨g.orFresh source c?, g.replica, g.journal⟩ : Receiver ρ)
      with ⟨e, he⟩ | ⟨c', hok, -⟩
    · rw [he] at hrequest
      cases hrequest
    · rw [hok] at hkept hrequest
      cases hrequest
      have hholding := hserves'.holding ⟨c', g.replica, g.journal⟩
      rw [hconnect]
      refine ⟨.of_serves hholding hkept, ?_⟩
      rw [hholding.receiver_some]
      exact .asks

/-- A failure of the channel disconnects it. -/
theorem withChannel_anchored {c : TargetChannel} (hserves : g.Serves source (some c))
    {act : Action (Receiver ρ) Frame}
    (hkept : (act.perform ⟨c, g.replica, g.journal⟩).2.Steady A low? since?)
    (hanswers : ∀ reply r, act.perform ⟨c, g.replica, g.journal⟩ = (.ok reply, r) →
      r.channel.Answers reply) :
    Rides A source low? since? (withChannel act ⟨some source, some 0⟩ g) := by
  rw [withChannel_some hserves act]
  rcases hact : act.perform ⟨c, g.replica, g.journal⟩ with ⟨e | reply, r⟩
  · rw [hact] at hkept
    exact ⟨.of_serves (hserves.holding r).disconnect (Receiver.keeps_disconnected r hkept),
      .refuses _ _⟩
  · rw [hact] at hkept
    have hholding := hserves.holding r
    refine ⟨.of_serves hholding hkept, ?_⟩
    rw [hholding.receiver_some]
    exact hanswers reply r hact

section Frames

variable {c : TargetChannel} (hserves : g.Serves source (some c))
  (hsteady : Receiver.Steady A low? since? ⟨c, g.replica, g.journal⟩)
include hserves hsteady

theorem handshakeReply_anchored {response : HandshakeResponse} {low : Nat} (hlow : low? = some low)
    (hle : low ≤ response.startKey - 1) (hkey : response.startKey < 2 ^ 64)
    (hdiscard : response.discardLocalState = true → c.firstHandshakePending = true) :
    Rides A source low? since? (receive A (.handshakeReply response) ⟨some source, some 0⟩ g) := by
  have hcompleted := Receiver.steady_completeHandshake hsteady hlow hle hkey hdiscard
  refine withChannel_anchored hserves ?_ fun reply r hok => ?_
  · rw [perform_bind]
    rcases hdone : (Receiver.completeHandshake A response).perform ⟨c, g.replica, g.journal⟩
      with ⟨e | _, r⟩ <;> rw [hdone] at hcompleted <;> exact hcompleted
  · rw [perform_bind] at hok
    split at hok
    · cases hok
      exact .confirms
    · cases hok

theorem batch_anchored {ps : List Packet} (hps : ∀ p ∈ ps, p.key < 2 ^ 64) :
    Rides A source low? since? (receive A (.batch ps) ⟨some source, some 0⟩ g) := by
  refine withChannel_anchored hserves ?_ fun reply r hok => ?_
  · exact hsteady.digested (Keeps.bind (Receiver.digests_consumeBatch fun _ => hps) (fun _ => .pure _) _
      (.refl _))
  · rw [perform_bind] at hok
    split at hok
    · rename_i hdone
      cases hok
      rw [Receiver.consumeBatch_answer hdone]
      exact .confirms
    · cases hok

/-- Any refusal but that of the resume key only disconnects the channel. -/
theorem reject_anchored {code : RejectCode} (hcode : code ≠ .resumeKeyCompacted) (text : String) :
    Rides A source low? since? (receive A (.reject code text) ⟨some source, some 0⟩ g) := by
  have hother : receive A (.reject code text) = withChannel (ρ := ρ) (do
      Receiver.onChannel (·.disconnected)
      return .ack (← get).channel.lastConfirmed) := by
    cases code <;> first | rfl | exact absurd rfl hcode
  rw [hother]
  refine withChannel_anchored hserves ?_ fun reply r hok => ?_
  · exact Keeps.bind Receiver.keeps_disconnected (fun _ => .bind .get fun _ => .pure _) _ hsteady
  · rw [Receiver.perform_onChannel_bind] at hok
    cases hok
    exact .confirms

end Frames

/-- Whatever a source sends to go on keeps its target steady. -/
theorem receive_anchored (h : s.Anchored A source low? since? g) {f : Frame}
    (hf : f.Onward source low? (g.receiver source).channel.firstHandshakePending) :
    Rides A source low? since? (s.receive A f g) := by
  obtain ⟨c?, hserves, hfeeds⟩ := h.serves
  by_cases hconnect : ∃ name group, f = .connect name group
  · obtain ⟨name, group, rfl⟩ := hconnect
    have hname : name = source := hf
    subst hname
    exact connect_anchored h group
  · rcases hfeeds with rfl | ⟨rfl, hsome⟩
    · obtain ⟨text, hsame⟩ := receive_new (g := g) A (f := f)
        fun name group heq => hconnect ⟨name, group, heq⟩
      rw [hsame]
      exact h.refused _ text
    · obtain ⟨c, rfl⟩ := Option.isSome_iff_exists.1 hsome
      have hsteady := h.steady
      rw [hserves.receiver_some] at hsteady hf
      cases f with
      | connect name group => exact absurd ⟨name, group, rfl⟩ hconnect
      | handshake request => exact h.refused _ _
      | ack key => exact h.refused _ _
      | handshakeReply response =>
        obtain ⟨hkey, ⟨low, hlow, hle⟩, hdiscard⟩ := hf
        exact handshakeReply_anchored hserves hsteady hlow hle hkey hdiscard
      | packet p =>
        rw [receive_packet A p hserves]
        refine batch_anchored hserves hsteady fun q hq => ?_
        rw [List.mem_singleton.1 hq]
        exact hf
      | batch ps => exact batch_anchored hserves hsteady hf
      | reject code text => exact reject_anchored hserves hsteady hf text

/-- A connection that is gone leaves the target steady. -/
theorem close_anchored (h : s.Anchored A source low? since? g) :
    (s.close g).1.Anchored A source low? since? (s.close g).2 := by
  obtain ⟨c?, hserves, rfl | ⟨rfl, hsome⟩⟩ := h.serves
  · exact h
  · obtain ⟨c, rfl⟩ := Option.isSome_iff_exists.1 hsome
    have hsteady := h.steady
    rw [hserves.receiver_some] at hsteady
    obtain ⟨hdetached, hreplica, hjournal, -⟩ := hserves.detach
    refine ⟨⟨_, hdetached, .inl rfl⟩, ?_⟩
    show ((g.detach source).receiver source).Steady A low? since?
    rw [hdetached.receiver_some, hreplica, hjournal]
    exact Receiver.keeps_disconnected _ hsteady

end Session

end GroupReplication
