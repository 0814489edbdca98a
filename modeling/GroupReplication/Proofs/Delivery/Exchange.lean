/-
What each frame that a worker sends does over a wire to the target behind it.
-/
import GroupReplication.Proofs.Delivery.Mirror

namespace GroupReplication

open GroupReplication.Action Packet

/-- The connection that a source announced itself on. -/
abbrev Session.bound (source : String) : Session := ⟨some source, some 0⟩

namespace Delivery

variable {log : Nat → Packet} {settings : ConflictSettings} {source : String} {initial : Replica}
  {d : Delivery (Wire Replica)} {c? : Option TargetChannel}

/-- A frame other than a handshake's answer restarts nothing. -/
theorem witness_plain {ρ : Type} {w : Wire ρ} {sent reply : Frame}
    (h : ∀ response, sent ≠ .handshakeReply response) : w.witness sent reply = w := by
  have hnone : Wire.restartsAt? sent reply = none := by
    cases sent with
    | handshakeReply response => exact absurd rfl (h response)
    | _ => rfl
  rw [Wire.witness, hnone]
  rfl

/-- A connect on a new connection may start a handshake, and the channel is not active. -/
theorem exchange_connect (h : d.link.Mirrors log settings source initial c?)
    (hkey : (d.link.channel source c?).lastConfirmed < 2 ^ 64)
    (hnew : d.link.ends.link.session = some .new) (group : String) :
    ∃ result w c?', (exchange (.wire Replica.applier) (.connect source group)).perform d
        = (result, { d with link := w }) ∧
      d.link.Rests log settings source initial c? w c?' ∧
      ∀ request, result = .ok (.handshake request) → w.restart? = none → request.first = true := by
  have hidle := h.calm (by rw [hnew]; simp [Session.new])
  have hc : ∀ c, c? = some c → Received log c := by
    rintro c rfl
    exact h.received
  obtain ⟨reply, s', g', c?', hconnect, hrests, hanswer⟩ :=
    Session.connect_spec log h.serves (.inl rfl) hc group
  have hreceive : Session.receive Replica.applier (.connect source group) .new d.link.ends.group
      = (reply, s', g') := hconnect
  -- what is known of the channel that a request speaks for
  have hasked : ∀ c', c?' = some c' → c'.lastConfirmed = (d.link.channel source c?).lastConfirmed ∧
      (d.link.restart? = none → c'.firstHandshakePending = true) := by
    rintro c' rfl
    rcases hrests.channel with hsame | ⟨-, hstands, -⟩
    · have hsame : c' = d.link.channel source c? := hsame
      rw [hsame]
      exact ⟨rfl, fun hnone => (h.untouched hnone).1⟩
    · exact ⟨congrArg (·.lastConfirmed) hstands.confirmation,
        fun hnone => hstands.pending (h.untouched hnone).1⟩
  have hfits : reply.Fits ∧ reply.Ordered := by
    rcases hanswer with ⟨code, text, rfl⟩ | ⟨c', hc', rfl⟩
    · exact ⟨trivial, trivial⟩
    · refine ⟨?_, trivial⟩
      show c'.request.lastConfirmed < 2 ^ 64
      rw [TargetChannel.request]
      split
      · show 0 < 2 ^ 64
        omega
      · rw [← (hasked c' hc').1] at hkey
        exact hkey
  obtain ⟨result, w, hexchange, hsent⟩ := exchange_spec Replica.applier
    (.connect source group) d fun s f' hs hread => by
      cases hread.same trivial trivial
      rw [hnew] at hs
      cases hs
      rw [hreceive]
      exact hfits
  refine ⟨result, w, ?_⟩
  rcases h.sent hsent trivial trivial with ⟨c?', hrest, e, rfl⟩ |
    ⟨s, s₁, reply₁, g₁, hs, -, hreceive₁, hresult, rfl⟩
  · exact ⟨c?', hexchange, hrest, fun _ heq => by cases heq⟩
  · rw [hnew] at hs
    cases hs
    rw [hreceive] at hreceive₁
    cases hreceive₁
    rw [witness_plain (fun _ heq => by cases heq)] at hexchange ⊢
    refine ⟨c?', hexchange, ?_, fun request heq hnone => ?_⟩
    · refine h.rests hrests (.inr rfl) rfl fun _ => ?_
      rcases hrests.channel with hsame | ⟨hquiet, -⟩
      · show (TargetGroup.orFresh g' source c?').state ≠ .active
        rw [hsame]
        exact hidle
      · exact hquiet
    · rcases hresult with rfl | ⟨⟨e, rfl⟩, -⟩
      · rcases hanswer with ⟨code, text, rfl⟩ | ⟨c', hc', rfl⟩
        · cases heq
        · cases heq
          rw [TargetChannel.request, (hasked c' hc').2 hnone]
          rfl
      · cases heq

/-- Any other frame changes nothing unless it comes to the channel of an announced source. -/
theorem exchange_announced (h : d.link.Mirrors log settings source initial c?) {f : Frame}
    (hfits : f.Fits) (hordered : f.Ordered) (hplain : ∀ name group, f ≠ .connect name group)
    (hreply : c?.isSome = true →
      (Session.receive Replica.applier f (.bound source) d.link.ends.group).1.Fits ∧
        (Session.receive Replica.applier f (.bound source) d.link.ends.group).1.Ordered) :
    ∃ result w, (exchange (.wire Replica.applier) f).perform d = (result, { d with link := w }) ∧
      ((∃ c?', d.link.Rests log settings source initial c? w c?') ∧
          (∀ key, result ≠ .ok (.ack key)) ∨
        ∃ s' reply g', c?.isSome = true ∧
          Session.receive Replica.applier f (.bound source) d.link.ends.group = (reply, s', g') ∧
          (result = .ok reply ∨ (∃ e, result = .error e) ∧ ∀ key, reply ≠ .ack key) ∧
          w = { d.link.cutNext with ends := d.link.cutNext.ends.took s' g' }.witness f reply) := by
  have hnew := Session.receive_new (g := d.link.ends.group) Replica.applier hplain
  obtain ⟨text, hrefused⟩ := hnew
  obtain ⟨result, w, hexchange, hsent⟩ := exchange_spec Replica.applier f d fun s f' hs hread => by
    cases hread.same hfits hordered
    rcases h.feeds s hs with rfl | ⟨rfl, hsome⟩
    · rw [hrefused]
      exact ⟨trivial, trivial⟩
    · exact hreply hsome
  refine ⟨result, w, hexchange, ?_⟩
  rcases h.sent hsent hfits hordered with ⟨c?', hrest, e, rfl⟩ | ⟨s, s', reply, g', hs, hfeeds, hreceive, hresult, rfl⟩
  · exact .inl ⟨⟨c?', hrest⟩, fun _ heq => by cases heq⟩
  · rcases hfeeds with rfl | ⟨rfl, hsome⟩
    · rw [hrefused] at hreceive
      cases hreceive
      rw [Wire.witness_of_not_ack fun _ heq => by cases heq]
      refine .inl ⟨⟨c?, h.same hs.symm rfl rfl⟩, fun key heq => ?_⟩
      rcases hresult with rfl | ⟨⟨e, rfl⟩, -⟩ <;> cases heq
    · exact .inr ⟨s', reply, g', hsome, hreceive, hresult, rfl⟩

/-- A refusal changes nothing. -/
theorem exchange_reject (h : d.link.Mirrors log settings source initial c?)
    (hkey : (d.link.channel source c?).lastConfirmed < 2 ^ 64) (code : RejectCode) (text : String) :
    ∃ result w c?', (exchange (.wire Replica.applier) (.reject code text)).perform d
        = (result, { d with link := w }) ∧
      d.link.Rests log settings source initial c? w c?' := by
  have hspec : ∀ {c}, c? = some c → ∃ reply g' c',
      Session.receive Replica.applier (.reject code text) (.bound source) d.link.ends.group
        = (reply, .bound source, g') ∧
      Session.Rests log source d.link.ends.group (some c) (.bound source) g' (some c') ∧
      c'.state ≠ .active ∧ reply.Fits ∧ reply.Ordered := by
    rintro c rfl
    obtain ⟨reply, g', c', hreceive, hrests, hquiet, hanswer⟩ :=
      Session.reject_spec log Replica.applier h.serves code text
    have hsame : c'.lastConfirmed = c.lastConfirmed := by
      rcases hrests.channel with hsame | ⟨-, hstands, -⟩
      · exact congrArg (·.lastConfirmed) hsame
      · exact congrArg (·.lastConfirmed) hstands.confirmation
    have hbound : c'.lastConfirmed < 2 ^ 64 := hsame ▸ hkey
    refine ⟨reply, g', c', hreceive, hrests, hquiet, ?_⟩
    rcases hanswer with ⟨code, text, rfl⟩ | rfl | rfl
    · exact ⟨trivial, trivial⟩
    · refine ⟨?_, trivial⟩
      show c'.request.lastConfirmed < 2 ^ 64
      rw [TargetChannel.request]
      split
      · show 0 < 2 ^ 64
        omega
      · exact hbound
    · exact ⟨hbound, trivial⟩
  obtain ⟨result, w, hexchange, ⟨⟨c?', hrest⟩, -⟩ | ⟨s', reply, g', hsome, hreceive, -, rfl⟩⟩ :=
    exchange_announced h (f := .reject code text) trivial trivial (fun _ _ heq => by cases heq)
      fun hsome => by
        obtain ⟨c, hc⟩ := Option.isSome_iff_exists.1 hsome
        obtain ⟨reply, g', c', hreceive, -, -, hfits⟩ := hspec hc
        rw [hreceive]
        exact hfits
  · exact ⟨result, w, c?', hexchange, hrest⟩
  · obtain ⟨c, rfl⟩ := Option.isSome_iff_exists.1 hsome
    obtain ⟨reply', g'', c', hreceive', hrests, hquiet, -⟩ := hspec rfl
    rw [hreceive'] at hreceive
    cases hreceive
    rw [witness_plain fun _ heq => by cases heq] at hexchange
    exact ⟨result, _, some c', hexchange, h.rests hrests (.inr rfl) rfl fun _ => hquiet⟩

/-- The target mirrors on from where it resumed, or from the start that it discarded its copy for. -/
theorem mirrors_aligned {w : Wire Replica} {c c' : TargetChannel} {g' : TargetGroup Replica}
    (h : w.Mirrors log settings source initial (some c)) (hkind : settings.targetKind = .clustered)
    {response : HandshakeResponse}
    (haligned : Receiver.Aligned Replica.applier response ⟨c, w.ends.group.replica, w.ends.group.journal⟩
      ⟨c', g'.replica, g'.journal⟩)
    (hserves : g'.Serves source (some c')) (hsettings : g'.settings = w.ends.group.settings)
    (hfirst : w.restart? = none → response.discardLocalState = true) (key : Nat) :
    ({ w.cutNext with ends := w.cutNext.ends.took (.bound source) g' }.witness
      (.handshakeReply response) (.ack key)).Mirrors log settings source initial (some c') := by
  have hstarted := haligned.started
  have hreceived : Received log c' := .all haligned.bulk (haligned.last.trans haligned.confirmed.symm)
  have hgoverned : c'.settings = settings := haligned.settings.trans h.governed
  cases hdiscard : response.discardLocalState with
  | true =>
    obtain ⟨hstaged, hcleared⟩ := haligned.discarded hdiscard
    have hreplica : g'.replica = w.ends.group.replica.clear := (Prod.mk.inj hcleared).2.symm
    have hrestart : ({ w.cutNext with ends := w.cutNext.ends.took (.bound source) g' }.witness
        (.handshakeReply response) (.ack key)).restart? = some (response.startKey, g'.replica) := by
      simp only [Wire.witness, Wire.restartsAt?, hdiscard, if_true, LoopbackEnds.took]
      rfl
    refine ⟨hserves, ?_, fun hnot => absurd rfl hnot, hreceived, hsettings.trans h.configured,
      hgoverned, ?_, fun hnone => ?_, fun start base heq => ?_⟩
    · intro s hs
      cases hs
      exact .inr ⟨rfl, rfl⟩
    · rw [Wire.startKey, Wire.base, hrestart]
      show Consumes _ _ _ response.startKey g'.replica c'.lastConfirmed ⟨c'.staged, g'.replica, _⟩
      have hconfirmed : c'.lastConfirmed = response.startKey - 1 := haligned.confirmed
      rw [hstaged]
      exact consumes_start (by omega)
    · rw [hrestart] at hnone
      cases hnone
    · rw [hrestart] at heq
      cases heq
      rw [hreplica]
      exact ⟨rfl, rfl, h.requireTypes hkind⟩
  | false =>
    obtain ⟨hstaged, hkept, hconfirmed⟩ := haligned.resumed hdiscard
    have hreplica : g'.replica = w.ends.group.replica := hkept
    have hrestart : ({ w.cutNext with ends := w.cutNext.ends.took (.bound source) g' }.witness
        (.handshakeReply response) (.ack key)).restart? = w.restart? := by
      simp only [Wire.witness, Wire.restartsAt?, hdiscard, Bool.false_eq_true, if_false]
      rfl
    have hsome : w.restart? ≠ none := fun hnone => by
      rw [hfirst hnone] at hdiscard
      cases hdiscard
    refine ⟨hserves, ?_, fun hnot => absurd rfl hnot, hreceived, hsettings.trans h.configured,
      hgoverned, ?_, fun hnone => absurd (hrestart.symm.trans hnone) hsome, fun start base heq => ?_⟩
    · intro s hs
      cases hs
      exact .inr ⟨rfl, rfl⟩
    · rw [Wire.startKey, Wire.base, hrestart]
      show Consumes _ _ _ w.startKey (w.base initial) c'.lastConfirmed ⟨c'.staged, g'.replica, g'.journal⟩
      have hsame : c'.lastConfirmed = c.lastConfirmed := haligned.confirmed.trans hconfirmed.symm
      rw [hsame, hstaged, hreplica]
      exact ⟨h.consumes.le, h.consumes.result⟩
    · exact h.cleared start base (hrestart.symm.trans heq)

/-- An acknowledged answer to a handshake makes the channel active right before the start key. -/
theorem exchange_handshakeReply (h : d.link.Mirrors log settings source initial c?)
    (hkind : settings.targetKind = .clustered) {response : HandshakeResponse}
    (hkey : response.startKey < 2 ^ 64)
    (hfirst : d.link.restart? = none → response.discardLocalState = true) :
    ∃ result w c?', (exchange (.wire Replica.applier) (.handshakeReply response)).perform d
        = (result, { d with link := w }) ∧
      (d.link.Rests log settings source initial c? w c?' ∧ (∀ key, result ≠ .ok (.ack key)) ∨
        (∃ key, result = .ok (.ack key)) ∧ w.Mirrors log settings source initial c?' ∧
          (w.channel source c?').state = .active ∧
          (w.channel source c?').lastReceived + 1 = response.startKey ∧
          (w.channel source c?').lastConfirmed + 1 = response.startKey ∧
          (w.restart? = d.link.restart? ∨ ∃ base, w.restart? = some (response.startKey, base))) := by
  have hfits : ∀ {c}, c? = some c →
      (Session.receive Replica.applier (.handshakeReply response) (.bound source) d.link.ends.group).1.Fits ∧
      (Session.receive Replica.applier (.handshakeReply response) (.bound source)
        d.link.ends.group).1.Ordered := by
    rintro c rfl
    obtain ⟨reply, g', c', hreceive, -, -, -, -, ⟨rfl, -⟩ | ⟨⟨code, text, rfl⟩, -⟩⟩ :=
      Session.handshakeReply_spec log Replica.applier h.serves response
    · rw [hreceive]
      exact ⟨by show response.startKey - 1 < 2 ^ 64; omega, trivial⟩
    · rw [hreceive]
      exact ⟨trivial, trivial⟩
  obtain ⟨result, w, hexchange, ⟨⟨c?', hrest⟩, hnot⟩ | ⟨s', reply, g', hsome, hreceive, hresult, rfl⟩⟩ :=
    exchange_announced h (f := .handshakeReply response) hkey trivial (fun _ _ heq => by cases heq)
      fun hsome => hfits (Option.isSome_iff_exists.1 hsome).choose_spec
  · exact ⟨result, w, c?', hexchange, .inl ⟨hrest, hnot⟩⟩
  · obtain ⟨c, rfl⟩ := Option.isSome_iff_exists.1 hsome
    obtain ⟨reply', g'', c', hreceive', hserves, hjournal, hsettings, hname, houtcome⟩ :=
      Session.handshakeReply_spec log Replica.applier h.serves response
    rw [hreceive'] at hreceive
    cases hreceive
    refine ⟨result, _, some c', hexchange, ?_⟩
    rcases houtcome with ⟨rfl, haligned⟩ | ⟨⟨code, text, rfl⟩, hquiet, hstands, hreceived, hreplica⟩
    · right
      have hack : result = .ok (.ack (response.startKey - 1)) := by
        rcases hresult with hok | ⟨-, hnot⟩
        · exact hok
        · exact absurd rfl (hnot _)
      have hstarted := haligned.started
      have hlast : c'.lastReceived = response.startKey - 1 := haligned.last
      have hconfirmed : c'.lastConfirmed = response.startKey - 1 := haligned.confirmed
      refine ⟨⟨_, hack⟩, mirrors_aligned h hkind haligned hserves hsettings hfirst _,
        haligned.active, ?_, ?_, ?_⟩
      · show c'.lastReceived + 1 = _
        omega
      · show c'.lastConfirmed + 1 = _
        omega
      · simp only [Wire.witness, Wire.restartsAt?]
        split
        · exact .inr ⟨g'.replica, rfl⟩
        · exact .inl rfl
    · left
      rw [Wire.witness_of_not_ack fun _ heq => by cases heq]
      have hsame : g'.replica = d.link.ends.group.replica := by
        rcases hreplica with hsame | ⟨e, hclear⟩
        · exact hsame
        · cases hclear
      have hrests : Session.Rests log source d.link.ends.group (some c) (.bound source) g' (some c') :=
        ⟨hserves, .inr ⟨rfl, rfl⟩, hsame, hjournal, hsettings, hname, fun _ => rfl,
          .inr ⟨c', rfl, hquiet, hstands, hreceived⟩⟩
      refine ⟨h.rests hrests (.inr rfl) rfl fun _ => hquiet, fun key heq => ?_⟩
      rcases hresult with rfl | ⟨⟨e, rfl⟩, -⟩ <;> cases heq

theorem increasing_of_keyedFrom {ps : List Packet} {first : Nat} (h : KeyedFrom first ps)
    {previous : Option Nat} (hprevious : ∀ k, previous = some k → k < first) :
    Frame.Increasing previous ps := by
  induction ps generalizing first previous with
  | nil => trivial
  | cons p ps ih =>
    obtain ⟨hp, hrest⟩ := h
    refine ⟨fun k hk => hp ▸ hprevious k hk, ih hrest fun k hk => ?_⟩
    cases hk
    omega

/-- An acknowledged batch that does not begin before the next packet began with it, and takes the
target to its end. -/
theorem exchange_batch (h : d.link.Mirrors log settings source initial c?)
    (hlog : ∀ k, (log k).key = k) {ps : List Packet} {first : Nat} (hps : ∀ p ∈ ps, p = log p.key)
    (hfits : ∀ p ∈ ps, p.Fits) (hkeyed : KeyedFrom first ps) (hne : ps ≠ [])
    (hend : first + ps.length ≤ 2 ^ 64)
    (hahead : (d.link.channel source c?).state = .active →
      (d.link.channel source c?).lastReceived + 1 ≤ first) :
    ∃ result w c?', (exchange (.wire Replica.applier) (.batch ps)).perform d
        = (result, { d with link := w }) ∧
      (d.link.Rests log settings source initial c? w c?' ∧ (∀ key, result ≠ .ok (.ack key)) ∨
        (∃ key, result = .ok (.ack key)) ∧ w.Mirrors log settings source initial c?' ∧
          (w.channel source c?').state = .active ∧
          (w.channel source c?').lastReceived + 1 = first + ps.length ∧
          w.restart? = d.link.restart?) := by
  have hspec : ∀ {c}, c? = some c → ∃ reply g' c',
      Session.receive Replica.applier (.batch ps) (.bound source) d.link.ends.group
        = (reply, .bound source, g') ∧
      g'.Serves source (some c') ∧ g'.settings = d.link.ends.group.settings ∧
      g'.name = d.link.ends.group.name ∧
      ((reply = .ack c'.lastConfirmed ∧ c.state = .active ∧ c.Advances c' ∧
          Consumes Replica.applier settings log d.link.startKey (d.link.base initial) c'.lastConfirmed
            ⟨c'.staged, g'.replica, g'.journal⟩ ∧ Received log c' ∧
          c'.lastReceived + 1 = first + ps.length) ∨
        (∃ code text, reply = .reject code text) ∧ c' = c.disconnected ∧
          g'.replica = d.link.ends.group.replica ∧ g'.journal = d.link.ends.group.journal) := by
    rintro c rfl
    exact Session.batch_next (progress_consumes Replica.not_canFail)
      Replica.not_canFail hlog hps hkeyed hne h.serves h.governed h.consumes h.received hahead
      hend
  have hordered : Frame.Increasing none ps := increasing_of_keyedFrom hkeyed fun _ hk => by cases hk
  obtain ⟨result, w, hexchange, ⟨⟨c?', hrest⟩, hnot⟩ | ⟨s', reply, g', hsome, hreceive, hresult, rfl⟩⟩ :=
    exchange_announced h (f := .batch ps) hfits hordered (fun _ _ heq => by cases heq) fun hsome => by
      obtain ⟨c, hc⟩ := Option.isSome_iff_exists.1 hsome
      obtain ⟨reply, g', c', hreceive, -, -, -, houtcome⟩ := hspec hc
      rw [hreceive]
      rcases houtcome with ⟨rfl, -, -, -, htook, hlast⟩ | ⟨⟨code, text, rfl⟩, -⟩
      · refine ⟨?_, trivial⟩
        show c'.lastConfirmed < 2 ^ 64
        have := htook.lastConfirmed_le
        omega
      · exact ⟨trivial, trivial⟩
  · exact ⟨result, w, c?', hexchange, .inl ⟨hrest, hnot⟩⟩
  · obtain ⟨c, rfl⟩ := Option.isSome_iff_exists.1 hsome
    obtain ⟨reply', g'', c', hreceive', hserves, hsettings, hname, houtcome⟩ := hspec rfl
    rw [hreceive'] at hreceive
    cases hreceive
    rw [witness_plain fun _ heq => by cases heq] at hexchange
    refine ⟨result, _, some c', hexchange, ?_⟩
    rcases houtcome with ⟨rfl, hactive, hadvances, hconsumes, htook, hlast⟩ |
      ⟨⟨code, text, rfl⟩, rfl, hreplica, hjournal⟩
    · right
      have hack : result = .ok (.ack c'.lastConfirmed) := by
        rcases hresult with hok | ⟨-, hnot⟩
        · exact hok
        · exact absurd rfl (hnot _)
      refine ⟨⟨_, hack⟩, ⟨hserves, fun s hs => ?_, fun hnot => absurd rfl hnot, htook,
        hsettings.trans h.configured, hadvances.settings.trans h.governed, hconsumes, fun hnone => ?_,
        h.cleared⟩, hadvances.state.trans hactive, hlast, rfl⟩
      · cases hs
        exact .inr ⟨rfl, rfl⟩
      · exact absurd hactive (h.untouched hnone).2.2
    · left
      have hrests : Session.Rests log source d.link.ends.group (some c) (.bound source) g'
          (some c.disconnected) :=
        ⟨hserves, .inr ⟨rfl, rfl⟩, hreplica, hjournal, hsettings, hname, fun _ => rfl,
          .inr ⟨c.disconnected, rfl, c.disconnected_state, .disconnected c,
            received_disconnected log c⟩⟩
      refine ⟨h.rests hrests (.inr rfl) rfl fun _ => c.disconnected_state, fun key heq => ?_⟩
      rcases hresult with rfl | ⟨⟨e, rfl⟩, -⟩ <;> cases heq

end Delivery

end GroupReplication
