/-
A group with a single active source, and any number of connections of any sources. A channel negotiates
or delivers only while its source is attached, with one way around: a connection whose channel the slot
has given up can still say that its resume key is gone, and so lets that channel start over. No source
comes to that without a second connection.
-/
import GroupReplication.Proofs.Target.Digest
import GroupReplication.Proofs.Target.Reception
import GroupReplication.Proofs.Target.Session
import GroupReplication.Replica.Basic

namespace GroupReplication

open GroupReplication.Action

/-! ## Channels -/

namespace TargetChannel

/-- The channel negotiates or delivers. -/
def Engaged (c : TargetChannel) : Prop := c.state = .handshaking ∨ c.state = .active

theorem disconnected_not_engaged (c : TargetChannel) : ¬ c.disconnected.Engaged := by
  unfold Engaged disconnected
  cases c.state <;> simp

/-- The channel of the same source, which did not become engaged unless it was `roused`. -/
structure Evolves (roused : Prop) (c c' : TargetChannel) : Prop where
  source : c'.source = c.source
  engaged : c'.Engaged → c.Engaged ∨ roused

namespace Evolves

variable {roused roused' : Prop} {c c' c'' : TargetChannel}

theorem refl (c : TargetChannel) : c.Evolves roused c := ⟨rfl, .inl⟩

theorem mono (h : c.Evolves roused c') (hroused : roused → roused') : c.Evolves roused' c' :=
  ⟨h.source, fun hengaged => (h.engaged hengaged).imp_right hroused⟩

theorem trans (h : c.Evolves roused c') (h' : c'.Evolves roused c'') : c.Evolves roused c'' :=
  ⟨h'.source.trans h.source, fun hengaged => (h'.engaged hengaged).elim h.engaged .inr⟩

theorem disconnected (c : TargetChannel) : c.Evolves roused c.disconnected :=
  ⟨rfl, fun hengaged => absurd hengaged c.disconnected_not_engaged⟩

end Evolves

end TargetChannel

namespace Receiver

variable {ρ α : Type} {A : Applier ρ} {roused : Prop} {c : TargetChannel}

/-- However the operation ends, the channel did not become engaged unless it was `roused`. -/
abbrev Evolves (roused : Prop) (c : TargetChannel) (act : Action (Receiver ρ) α) : Prop :=
  Keeps (fun r => c.Evolves roused r.channel) act

theorem evolves_onChannel {f : TargetChannel → TargetChannel}
    (hf : ∀ c : TargetChannel, c.Evolves roused (f c)) : Evolves (ρ := ρ) roused c (onChannel f) :=
  fun r h => h.trans (hf r.channel)

/-- Only who negotiates can become active. -/
theorem evolves_completeHandshake (response : HandshakeResponse) :
    Evolves roused c (completeHandshake A response) := by
  intro r h
  rcases completeHandshake_spec A response r with
    ⟨e, r', he, ⟨state, hsame, hstate⟩, -⟩ | ⟨r', hok, haligned⟩
  · rw [he]
    refine h.trans ⟨congrArg (·.source) hsame, fun hengaged => .inl ?_⟩
    have hnow : r'.channel.state = state := congrArg (·.state) hsame
    rcases hstate with rfl | rfl
    · rcases hengaged with hactive | hactive <;> rw [hnow] at hactive <;> cases hactive
    · rwa [TargetChannel.Engaged, hnow] at hengaged
  · rw [hok]
    exact h.trans ⟨haligned.source, fun _ => .inl (.inl haligned.asked)⟩

/-- Packets leave the channel in its state. -/
theorem evolves_of_digests {act : Action (Receiver ρ) α}
    (hact : ∀ r : Receiver ρ, r.Digests A False (act.perform r).2) : Evolves roused c act := by
  intro r h
  refine h.trans ⟨(hact r).channel.source, fun hengaged => .inl ?_⟩
  rwa [TargetChannel.Engaged, (hact r).channel.state] at hengaged

theorem evolves_requestHandshake : Evolves (ρ := ρ) True c requestHandshake := by
  intro r h
  rcases requestHandshake_spec r with ⟨e, he⟩ | ⟨c', hok, hstands, -⟩
  · rw [he]
    exact h
  · rw [hok]
    exact h.trans ⟨hstands.source, fun _ => .inr trivial⟩

end Receiver

/-! ## Groups -/

namespace TargetGroup

variable {ρ : Type} {g g' g'' : TargetGroup ρ} {roused roused' : Nat → Prop} {exempt exempt' : List Nat}

/-- An attached source has this channel. -/
def seats (channel : Nat) (g : TargetGroup ρ) : Bool := g.slots.any fun s => s.2 = ⟨channel, true⟩

/-- The group with the same slots. Only channels that `roused` tells became engaged. -/
structure Evolves (roused : Nat → Prop) (g g' : TargetGroup ρ) : Prop where
  policy : g'.attachPolicy = g.attachPolicy
  slots : g'.slots = g.slots
  length : g'.channels.length = g.channels.length
  channels : ∀ n c', g'.channels[n]? = some c' →
    ∃ c, g.channels[n]? = some c ∧ TargetChannel.Evolves (roused n) c c'

namespace Evolves

theorem refl (g : TargetGroup ρ) : g.Evolves roused g := ⟨rfl, rfl, rfl, fun _ c hc => ⟨c, hc, .refl c⟩⟩

theorem trans (h : g.Evolves roused g') (h' : g'.Evolves roused g'') : g.Evolves roused g'' := by
  refine ⟨h'.policy.trans h.policy, h'.slots.trans h.slots, h'.length.trans h.length,
    fun n c'' hc'' => ?_⟩
  obtain ⟨c', hc', hevolves'⟩ := h'.channels n c'' hc''
  obtain ⟨c, hc, hevolves⟩ := h.channels n c' hc'
  exact ⟨c, hc, hevolves.trans hevolves'⟩

theorem disconnect (channel : Nat) (g : TargetGroup ρ) : g.Evolves roused (g.disconnect channel) := by
  refine ⟨rfl, rfl, List.length_modify .., fun n c' hc' => ?_⟩
  rw [TargetGroup.disconnect, List.getElem?_modify] at hc'
  obtain ⟨c, hc, rfl⟩ := Option.map_eq_some_iff.1 hc'
  refine ⟨c, hc, ?_⟩
  split
  · exact .disconnected c
  · exact .refl c

theorem mono (h : g.Evolves roused g') (hroused : ∀ n, roused n → roused' n) : g.Evolves roused' g' := by
  refine ⟨h.policy, h.slots, h.length, fun n c' hc' => ?_⟩
  obtain ⟨c, hc, hevolves⟩ := h.channels n c' hc'
  exact ⟨c, hc, hevolves.mono (hroused n)⟩

/-- A channel at work changes itself at most. -/
theorem onChannel {α : Type} {act : Action (Receiver ρ) α} {may : Prop}
    (hact : ∀ c, Receiver.Evolves may c act) (channel : Nat) (g : TargetGroup ρ) :
    g.Evolves (fun n => channel = n ∧ may) ((TargetGroup.onChannel channel act).perform g).2 := by
  rw [TargetGroup.onChannel, perform_get_bind]
  cases hfound : g.channels[channel]? with
  | none => exact .refl g
  | some c =>
    simp only [perform_set_bind, perform_decided]
    refine ⟨rfl, rfl, List.length_set .., fun n c' hc' => ?_⟩
    by_cases hn : channel = n
    · subst hn
      refine ⟨c, hfound, ?_⟩
      rw [List.getElem?_set_self (List.getElem?_eq_some_iff.1 hfound).1] at hc'
      cases hc'
      exact (hact c _ (.refl c)).mono fun hmay => ⟨rfl, hmay⟩
    · rw [List.getElem?_set_ne hn] at hc'
      exact ⟨c', hc', .refl c'⟩

end Evolves

/-- No channel but that of the attached source is engaged, and those that are `exempt`. -/
structure Exclusive (exempt : List Nat) (g : TargetGroup ρ) : Prop where
  policy : g.attachPolicy = .singleActiveSource
  alone : g.slots = [] ∨ ∃ source slot, g.slots = [(source, slot)]
  own : ∀ s ∈ g.slots, ∃ c, g.channels[s.2.channel]? = some c ∧ c.source = s.1
  shut : ∀ n c, g.channels[n]? = some c → c.Engaged → g.seats n = true ∨ n ∈ exempt

namespace Exclusive

theorem evolves (h : g.Exclusive exempt) (hevolves : g.Evolves roused g')
    (hroused : ∀ n, roused n → g.seats n = true ∨ n ∈ exempt') (hexempt : exempt ⊆ exempt') :
    g'.Exclusive exempt' := by
  refine ⟨hevolves.policy.trans h.policy, hevolves.slots ▸ h.alone, fun s hs => ?_,
    fun n c' hc' hengaged => ?_⟩
  · obtain ⟨c, hc, hsource⟩ := h.own s (hevolves.slots ▸ hs)
    have hlength := (List.getElem?_eq_some_iff.1 hc).1
    rw [← hevolves.length] at hlength
    obtain ⟨c₀, hc₀, hchannel⟩ := hevolves.channels _ _ (List.getElem?_eq_getElem hlength)
    rw [hc] at hc₀
    cases hc₀
    exact ⟨_, List.getElem?_eq_getElem hlength, hchannel.source.trans hsource⟩
  · obtain ⟨c, hc, hchannel⟩ := hevolves.channels n c' hc'
    rw [show g'.seats n = g.seats n by rw [seats, hevolves.slots, seats]]
    rcases hchannel.engaged hengaged with hbefore | hnow
    · exact (h.shut n c hc hbefore).imp_right fun hn => hexempt hn
    · exact hroused n hnow

theorem disconnect (h : g.Exclusive exempt) (channel : Nat) :
    (g.disconnect channel).Exclusive exempt := by
  have hevolves : g.Evolves (fun _ => False) (g.disconnect channel) := .disconnect channel g
  exact h.evolves hevolves (fun _ hfalse => hfalse.elim) (List.Subset.refl exempt)

theorem exempting (h : g.Exclusive exempt) (hexempt : exempt ⊆ exempt') : g.Exclusive exempt' :=
  ⟨h.policy, h.alone, h.own, fun n c hc hengaged => (h.shut n c hc hengaged).imp_right (hexempt ·)⟩

/-- Without a slot a source gets a channel of its own, which is not engaged yet. -/
theorem openSlot_new (h : g.Exclusive exempt) (hslots : g.slots = []) (source : String) :
    (g.openSlot source).2.Exclusive exempt ∧
      (g.openSlot source).2.slots = [(source, ⟨(g.openSlot source).1, true⟩)] := by
  have hopened : g.openSlot source = (g.channels.length, { g with
      channels := g.channels ++ [.fresh g.name source g.settings]
      slots := [(source, ⟨g.channels.length, true⟩)] }) := by
    simp [openSlot, hslots, Table.insert]
  rw [hopened]
  refine ⟨⟨h.policy, .inr ⟨source, _, rfl⟩, fun s hs => ?_, fun n c hc hengaged => ?_⟩, rfl⟩
  · rw [List.mem_singleton.1 hs]
    exact ⟨_, List.getElem?_concat_length, rfl⟩
  · by_cases hn : n < g.channels.length
    · rw [List.getElem?_append_left hn] at hc
      refine (h.shut n c hc hengaged).imp_left fun hseats => ?_
      rw [seats, hslots] at hseats
      cases hseats
    · rw [List.getElem?_append_right (Nat.le_of_not_lt hn), List.getElem?_singleton] at hc
      split at hc
      · cases hc
        rcases hengaged with hstate | hstate <;> cases hstate
      · cases hc

/-- A source that comes back finds its channel. -/
theorem openSlot_same (h : g.Exclusive exempt) {source : String} {slot : Slot}
    (hslots : g.slots = [(source, slot)]) :
    (g.openSlot source).2.Exclusive exempt ∧
      (g.openSlot source).2.slots = [(source, ⟨(g.openSlot source).1, true⟩)] := by
  have hopened : g.openSlot source
      = (slot.channel, { g with slots := [(source, ⟨slot.channel, true⟩)] }) := by
    simp [openSlot, hslots, Table.get?, Table.insert]
  rw [hopened]
  refine ⟨⟨h.policy, .inr ⟨source, _, rfl⟩, fun s hs => ?_, fun n c hc hengaged => ?_⟩, rfl⟩
  · rw [List.mem_singleton.1 hs]
    exact h.own (source, slot) (by rw [hslots]; exact List.mem_singleton_self _)
  · refine (h.shut n c hc hengaged).imp_left fun hseats => ?_
    rw [seats, hslots] at hseats
    simp only [List.any_cons, List.any_nil, Bool.or_false, decide_eq_true_eq] at hseats
    subst hseats
    simp [seats]

/-- The channels of sources that are gone are closed. -/
theorem closeOthers (h : g.Exclusive exempt) {source : String}
    (hgone : ∀ s ∈ g.slots, s.2.attached = true → s.1 = source) :
    (g.closeOthers source).Exclusive exempt ∧
      ((g.closeOthers source).slots = [] ∨ ∃ slot, (g.closeOthers source).slots = [(source, slot)]) := by
  rcases h.alone with hslots | ⟨name, slot, hslots⟩
  · rw [closeOthers_of_slots fun s hs => by rw [hslots] at hs; cases hs]
    exact ⟨h, .inl hslots⟩
  · by_cases hname : name = source
    · subst hname
      rw [closeOthers_of_slots fun s hs => by rw [hslots] at hs; rw [List.mem_singleton.1 hs]]
      exact ⟨h, .inr ⟨slot, hslots⟩⟩
    · have hclosed : g.closeOthers source = { g.disconnect slot.channel with slots := [] } := by
        simp [TargetGroup.closeOthers, hslots, hname]
      rw [hclosed]
      refine ⟨⟨h.policy, .inl rfl, fun s hs => (by cases hs), fun n c hc hengaged => ?_⟩, .inl rfl⟩
      refine ((h.disconnect slot.channel).shut n c hc hengaged).imp_left fun hseats => ?_
      -- a channel that is seated belongs to a source that is not gone
      rw [seats, show (g.disconnect slot.channel).slots = [(name, slot)] from hslots] at hseats
      simp only [List.any_cons, List.any_nil, Bool.or_false, decide_eq_true_eq] at hseats
      exact absurd (hgone (name, slot) (by rw [hslots]; exact List.mem_singleton_self _)
        (by rw [hseats])) hname

/-- A source can attach only while no other one is attached. -/
theorem attach (h : g.Exclusive exempt) (source : String) :
    (∃ e, (TargetGroup.attach source).perform g = (.error e, g)) ∨
      (∀ s ∈ g.slots, s.2.attached = true → s.1 = source) ∧
        ∃ n g', (TargetGroup.attach source).perform g = (.ok n, g') ∧ g'.Exclusive exempt ∧
          g'.slots = [(source, ⟨n, true⟩)] := by
  cases hallowed : g.membership.allowsSource source with
  | false =>
    refine .inl ⟨.unknownMember (.source source g.name), ?_⟩
    simp only [TargetGroup.attach, perform_get_bind, hallowed, Bool.not_false, if_true]
    rfl
  | true =>
    cases hother : g.slots.find? fun s => s.2.attached && s.1 ≠ source with
    | some s =>
      refine .inl ⟨.sourceAlreadyAttached g.name s.1 source, ?_⟩
      simp only [TargetGroup.attach, perform_get_bind, hallowed, Bool.not_true, Bool.false_eq_true,
        if_false, h.policy, if_true, hother]
      rfl
    | none =>
      have hgone : ∀ s ∈ g.slots, s.2.attached = true → s.1 = source := by
        intro s hs hattached
        have hnot := List.find?_eq_none.1 hother s hs
        simpa [hattached] using hnot
      have hperform : (TargetGroup.attach source).perform g
          = (.ok ((g.closeOthers source).openSlot source).1,
              ((g.closeOthers source).openSlot source).2) := by
        simp only [TargetGroup.attach, perform_get_bind, hallowed, Bool.not_true, Bool.false_eq_true,
          if_false, h.policy, if_true, hother, perform_modify_bind]
        rfl
      obtain ⟨hclosed, hslots⟩ := h.closeOthers hgone
      refine .inr ⟨hgone, _, _, hperform, ?_⟩
      rcases hslots with hslots | ⟨slot, hslots⟩
      · exact hclosed.openSlot_new hslots source
      · exact hclosed.openSlot_same hslots

/-- A source that is detached leaves no engaged channel behind. -/
theorem detach (h : g.Exclusive exempt) (source : String) : (g.detach source).Exclusive exempt := by
  cases hslot : g.slots.get? source with
  | none =>
    rw [show g.detach source = g by rw [TargetGroup.detach, hslot]]
    exact h
  | some slot =>
    have hslots : g.slots = [(source, slot)] := by
      rcases h.alone with hslots | ⟨name, slot', hslots⟩
      · rw [hslots] at hslot
        cases hslot
      · rw [hslots] at hslot ⊢
        simp only [Table.get?] at hslot
        split at hslot
        · rename_i hname
          cases hslot
          rw [hname]
        · cases hslot
    have hdetached : g.detach source
        = { g.disconnect slot.channel with slots := [(source, ⟨slot.channel, false⟩)] } := by
      rw [TargetGroup.detach, hslot, hslots]
      simp [TargetGroup.disconnect, Table.insert]
    have hclosed := h.disconnect slot.channel
    rw [hdetached]
    refine ⟨h.policy, .inr ⟨source, _, rfl⟩, fun s hs => ?_, fun n c hc hengaged => ?_⟩
    · rw [List.mem_singleton.1 hs]
      exact hclosed.own (source, slot) (hslots ▸ List.mem_singleton_self _)
    · refine (hclosed.shut n c hc hengaged).imp_left fun hseats => ?_
      -- the channel that had the seat is the one that is disconnected
      rw [seats, show (g.disconnect slot.channel).slots = [(source, slot)] from hslots] at hseats
      simp only [List.any_cons, List.any_nil, Bool.or_false, decide_eq_true_eq] at hseats
      subst hseats
      obtain ⟨c', -, rfl⟩ : ∃ c', g.channels[n]? = some c' ∧ c'.disconnected = c := by
        rw [show ({ g.disconnect n with slots := [(source, ⟨n, false⟩)] } : TargetGroup ρ).channels
          = g.channels.modify n (·.disconnected) from rfl, List.getElem?_modify] at hc
        simpa using hc
      exact absurd hengaged c'.disconnected_not_engaged

end Exclusive

end TargetGroup

/-! ## Connections -/

namespace Session

variable {ρ : Type} {A : Applier ρ} {g : TargetGroup ρ} {exempt : List Nat}

/-- A failure disconnects the channel on top of what the frame did. -/
theorem withChannel_evolves {act : Action (Receiver ρ) Frame} {may : Prop}
    (hact : ∀ c, Receiver.Evolves may c act) (s : Session) (g : TargetGroup ρ) :
    (withChannel act s g).2.1 = s ∧
      g.Evolves (fun n => s.channel = some n ∧ may) (withChannel act s g).2.2 := by
  unfold withChannel
  cases hchannel : s.channel with
  | none => exact ⟨rfl, .refl g⟩
  | some channel =>
    have hevolves : g.Evolves (fun n => some channel = some n ∧ may)
        ((TargetGroup.onChannel channel act).perform g).2 :=
      (TargetGroup.Evolves.onChannel hact channel g).mono fun n h => ⟨congrArg some h.1, h.2⟩
    dsimp only
    generalize (TargetGroup.onChannel channel act).perform g = out at hevolves
    obtain ⟨e | reply, g'⟩ := out
    · exact ⟨rfl, hevolves.trans (.disconnect channel g')⟩
    · exact ⟨rfl, hevolves⟩

/-- A frame on a connection that was announced only rouses the connection's channel, when it says that
the resume key is gone. -/
theorem receive_evolves {f : Frame} (hconnect : ∀ source group, f ≠ .connect source group) (s : Session)
    (g : TargetGroup ρ) : (receive A f s g).2.1 = s ∧
      g.Evolves (fun n => s.channel = some n ∧ ∃ text, f = .reject .resumeKeyCompacted text)
        (receive A f s g).2.2 := by
  have hquiet : ∀ {act : Action (Receiver ρ) Frame}, receive A f = withChannel act →
      (∀ c, Receiver.Evolves False c act) → (receive A f s g).2.1 = s ∧
        g.Evolves (fun n => s.channel = some n ∧ ∃ text, f = .reject .resumeKeyCompacted text)
          (receive A f s g).2.2 := by
    intro act hreceive hact
    rw [hreceive]
    exact (withChannel_evolves hact s g).imp_right (·.mono fun _ h => h.2.elim)
  cases f with
  | connect source group => exact absurd rfl (hconnect source group)
  | handshake request => exact ⟨rfl, .refl g⟩
  | ack key => exact ⟨rfl, .refl g⟩
  | handshakeReply response =>
    exact hquiet rfl fun c => Keeps.bind (Receiver.evolves_completeHandshake response) fun _ =>
      .bind .get fun _ => .pure _
  | packet p =>
    exact hquiet rfl fun c => Keeps.bind (Receiver.evolves_of_digests fun r =>
      Receiver.digests_consume False.elim r (.refl r)) fun _ => .pure _
  | batch ps =>
    exact hquiet rfl fun c => Keeps.bind (Receiver.evolves_of_digests fun r =>
      Receiver.digests_consumeBatch False.elim r (.refl r)) fun _ => .pure _
  | reject code text =>
    have hdisconnects : ∀ c, Receiver.Evolves (ρ := ρ) False c (do
        Receiver.onChannel (·.disconnected)
        return .ack (← get).channel.lastConfirmed : Action (Receiver ρ) Frame) := fun c =>
      Keeps.bind (Receiver.evolves_onChannel .disconnected) fun _ => .bind .get fun _ => .pure _
    cases code with
    | resumeKeyCompacted =>
      have hrestarts : ∀ c, Receiver.Evolves (ρ := ρ) True c (do
          Receiver.onChannel fun c => c.disconnected.requiringResync
          return .handshake (← Receiver.requestHandshake) : Action (Receiver ρ) Frame) := fun c =>
        Keeps.bind (Receiver.evolves_onChannel fun c => ⟨rfl, fun hengaged =>
          absurd hengaged c.disconnected_not_engaged⟩) fun _ =>
            .bind Receiver.evolves_requestHandshake fun _ => .pure _
      exact (withChannel_evolves hrestarts s g).imp_right (·.mono fun _ h => ⟨h.1, text, rfl⟩)
    | _ => exact hquiet rfl hdisconnects

/-- A source that announces itself gets a channel to negotiate on only if no other one is attached. -/
theorem connect_exclusive (h : g.Exclusive exempt) (source group : String) (s : Session) :
    (∃ reply, connect source group s g = (reply, s, g)) ∨
      s.source = none ∧ (∀ slot ∈ g.slots, slot.2.attached = true → slot.1 = source) ∧
        ∃ reply s' g', connect source group s g = (reply, s', g') ∧ g'.Exclusive exempt ∧
          (s' = s ∨ ∃ n, s' = ⟨some source, some n⟩ ∧ g'.slots = [(source, ⟨n, true⟩)]) := by
  unfold connect
  by_cases hgroup : group = g.name
  · cases hannounced : s.source with
    | some name =>
      simp only [hgroup, ne_eq, not_true_eq_false, if_false, Option.isSome_some, if_true]
      exact .inl ⟨_, rfl⟩
    | none =>
      simp only [hgroup, ne_eq, not_true_eq_false, if_false, Option.isSome_none, Bool.false_eq_true]
      rcases h.attach source with ⟨e, he⟩ | ⟨hgone, n, g', hok, hattached, hslots⟩
      · rw [he]
        exact .inl ⟨_, rfl⟩
      · rw [hok]
        have hevolves := TargetGroup.Evolves.onChannel
          (fun c => Receiver.evolves_requestHandshake (ρ := ρ) (c := c)) n g'
        have hseated : g'.seats n = true := by
          rw [TargetGroup.seats, hslots]
          simp
        have hasked := hattached.evolves hevolves (fun k hk => .inl (hk.1 ▸ hseated))
          (List.Subset.refl exempt)
        refine .inr ⟨trivial, hgone, ?_⟩
        have hkept := hevolves.slots
        dsimp only
        generalize (TargetGroup.onChannel n Receiver.requestHandshake).perform g' = out at hasked hkept
        obtain ⟨e | request, g''⟩ := out
        · exact ⟨_, _, _, rfl, hasked.detach source, .inl rfl⟩
        · exact ⟨_, _, _, rfl, hasked, .inr ⟨n, rfl, hkept.trans hslots⟩⟩
  · simp only [ne_eq, hgroup, not_false_eq_true, if_true]
    exact .inl ⟨_, rfl⟩

end Session

namespace Receipt

variable {ρ : Type}

/-- The channel that starts over although no attached source has it. -/
def restarts? (x : Receipt ρ) : Option Nat :=
  match x.signal with
  | .frame connection (.reject .resumeKeyCompacted _) =>
    (x.before.sessions connection).channel.filter fun n => !x.before.group.seats n
  | _ => none

/-- A source announces itself on a connection while it has another one. -/
def Doubles (x : Receipt ρ) : Prop :=
  ∃ connection source group other, x.signal = .frame connection (.connect source group) ∧
    other ≠ connection ∧ (x.before.sessions other).source = some source

end Receipt

namespace Connections

variable {ρ : Type} {t : Connections ρ} {g : TargetGroup ρ}

/-- At most one connection was announced, and its source is attached with its channel. -/
structure Sole (t : Connections ρ) : Prop where
  seated : ∀ i, t.sessions i = .new ∨
    ∃ source n, t.sessions i = ⟨some source, some n⟩ ∧ t.group.slots = [(source, ⟨n, true⟩)]
  sole : ∀ i j, t.sessions i ≠ .new → t.sessions j ≠ .new → i = j

namespace Sole

theorem same (h : t.Sole) (connection : Nat) (hslots : g.slots = t.group.slots) :
    (t.update connection (t.sessions connection) g).Sole := by
  have hsessions : (t.update connection (t.sessions connection) g).sessions = t.sessions := by
    funext other
    by_cases hother : other = connection
    · subst hother
      exact if_pos rfl
    · exact if_neg hother
  refine ⟨?_, ?_⟩
  · rw [hsessions, show (t.update connection (t.sessions connection) g).group.slots = _ from hslots]
    exact h.seated
  · rw [hsessions]
    exact h.sole

/-- A connection among others that were not announced. -/
theorem only {connection : Nat} {s : Session} (hothers : ∀ i, i ≠ connection → t.sessions i = .new)
    (hs : s = .new ∨ ∃ source n, s = ⟨some source, some n⟩ ∧ g.slots = [(source, ⟨n, true⟩)]) :
    (t.update connection s g).Sole := by
  have hnew : ∀ i, i ≠ connection → (t.update connection s g).sessions i = .new := fun i hi =>
    (if_neg hi).trans (hothers i hi)
  have hself : (t.update connection s g).sessions connection = s := if_pos rfl
  refine ⟨fun i => ?_, fun i j hi hj => ?_⟩
  · by_cases hi : i = connection
    · subst hi
      rw [hself]
      exact hs
    · exact .inl (hnew i hi)
  · have honly : ∀ k, (t.update connection s g).sessions k ≠ .new → k = connection := fun k hk =>
      Classical.byContradiction fun hne => hk (hnew k hne)
    rw [honly i hi, honly j hj]

end Sole

end Connections

namespace Reception

variable {ρ : Type} {A : Applier ρ} {r : Reception ρ}

/-- The channels that started over although no attached source had them. -/
def restarted (r : Reception ρ) : List Nat := r.receipts.filterMap (·.restarts?)

theorem restarted_step (signal : Signal) :
    (r.step A signal).restarted
      = (Receipt.restarts? ⟨r.connections, signal⟩).toList ++ r.restarted := by
  rw [restarted, step, List.filterMap_cons, restarted]
  cases Receipt.restarts? ⟨r.connections, signal⟩ <;> rfl

/-- No signal engages a channel that the slot has not, except by a restart. -/
theorem exclusive_step (h : r.connections.group.Exclusive r.restarted) (signal : Signal) :
    (r.step A signal).connections.group.Exclusive (r.step A signal).restarted := by
  have hmore : r.restarted ⊆ (r.step A signal).restarted := by
    rw [restarted_step]
    exact List.subset_append_right ..
  cases signal with
  | close connection =>
    show (((r.connections.sessions connection).close r.connections.group).2).Exclusive _
    unfold Session.close
    cases (r.connections.sessions connection).source with
    | none => exact h.exempting hmore
    | some source => exact (h.detach source).exempting hmore
  | frame connection f =>
    show (((r.connections.sessions connection).receive A f r.connections.group).2.2).Exclusive _
    by_cases hconnect : ∃ source group, f = .connect source group
    · obtain ⟨source, group, rfl⟩ := hconnect
      rcases Session.connect_exclusive h source group (r.connections.sessions connection) with
        ⟨reply, hsame⟩ | ⟨-, -, reply, s', g', hopened, hg', -⟩
      · rw [show Session.receive A (.connect source group) _ _ = _ from hsame]
        exact h.exempting hmore
      · rw [show Session.receive A (.connect source group) _ _ = _ from hopened]
        exact hg'.exempting hmore
    · obtain ⟨-, hevolves⟩ := Session.receive_evolves (A := A)
        (fun source group heq => hconnect ⟨source, group, heq⟩)
        (r.connections.sessions connection) r.connections.group
      refine h.evolves hevolves (fun n hroused => ?_) hmore
      obtain ⟨hchannel, text, rfl⟩ := hroused
      cases hseats : r.connections.group.seats n with
      | true => exact .inl rfl
      | false =>
        refine .inr ?_
        rw [restarted_step]
        simp [Receipt.restarts?, hchannel, hseats]

/-- A source that has one connection at a time keeps its seat while it has it. -/
theorem sole_step (h : r.connections.group.Exclusive r.restarted) (hsole : r.connections.Sole)
    {signal : Signal} (hsignal : ¬ Receipt.Doubles ⟨r.connections, signal⟩) :
    (r.step A signal).connections.Sole ∧ Receipt.restarts? ⟨r.connections, signal⟩ = none := by
  cases signal with
  | close connection =>
    refine ⟨?_, rfl⟩
    show (r.connections.update connection ((r.connections.sessions connection).close
      r.connections.group).1 ((r.connections.sessions connection).close r.connections.group).2).Sole
    by_cases hnew : r.connections.sessions connection = .new
    · have hclosed : (r.connections.sessions connection).close r.connections.group
          = (r.connections.sessions connection, r.connections.group) := by
        rw [hnew]
        rfl
      rw [hclosed]
      exact hsole.same connection rfl
    · refine .only (fun i hi => Classical.byContradiction fun hother => hi ?_) (.inl rfl)
      exact hsole.sole i connection hother hnew
  | frame connection f =>
    by_cases hconnect : ∃ source group, f = .connect source group
    · obtain ⟨source, group, rfl⟩ := hconnect
      refine ⟨?_, rfl⟩
      show (r.connections.update connection
        ((r.connections.sessions connection).connect source group r.connections.group).2.1
        ((r.connections.sessions connection).connect source group r.connections.group).2.2).Sole
      rcases Session.connect_exclusive h source group (r.connections.sessions connection) with
        ⟨reply, hsame⟩ | ⟨hnone, hgone, reply, s', g', hopened, -, hs'⟩
      · rw [hsame]
        exact hsole.same connection rfl
      · -- who is announced is seated, so it is this source, which then has two connections
        have hothers : ∀ i, r.connections.sessions i = .new := by
          intro i
          rcases hsole.seated i with hnew | ⟨name, n, hannounced, hslots⟩
          · exact hnew
          · have hname : name = source :=
              hgone (name, ⟨n, true⟩) (hslots ▸ List.mem_singleton_self _) rfl
            refine absurd ⟨connection, source, group, i, rfl, ?_, ?_⟩ hsignal
            · rintro rfl
              rw [hannounced] at hnone
              cases hnone
            · show (r.connections.sessions i).source = some source
              rw [hannounced, hname]
        rw [hopened]
        refine .only (fun i _ => hothers i) ?_
        rcases hs' with rfl | ⟨n, rfl, hslots⟩
        · exact .inl (hothers connection)
        · exact .inr ⟨source, n, rfl, hslots⟩
    · obtain ⟨hsame, hevolves⟩ := Session.receive_evolves (A := A)
        (fun source group heq => hconnect ⟨source, group, heq⟩)
        (r.connections.sessions connection) r.connections.group
      refine ⟨?_, ?_⟩
      · show (r.connections.update connection
          ((r.connections.sessions connection).receive A f r.connections.group).2.1
          ((r.connections.sessions connection).receive A f r.connections.group).2.2).Sole
        rw [hsame]
        exact hsole.same connection hevolves.slots
      · unfold Receipt.restarts?
        split
        · rename_i i text hframe
          rcases hsole.seated i with hnew | ⟨source, n, hannounced, hslots⟩
          · rw [hnew]
            rfl
          · rw [hannounced]
            simp [TargetGroup.seats, hslots]
        · rfl

/-- What every signal keeps holds after any of them. -/
theorem exclusive_steps (h : r.connections.group.Exclusive r.restarted) (signals : List Signal) :
    (r.steps A signals).connections.group.Exclusive (r.steps A signals).restarted := by
  induction signals generalizing r with
  | nil => exact h
  | cons signal signals ih => exact ih (exclusive_step h signal)

theorem receipts_steps (signals : List Signal) : r.receipts <:+ (r.steps A signals).receipts := by
  induction signals generalizing r with
  | nil => exact List.suffix_refl _
  | cons signal signals ih => exact (List.suffix_cons _ r.receipts).trans (ih (r := r.step A signal))

/-- Without a source that has two connections no channel starts over on its own. -/
theorem sole_steps (h : r.connections.group.Exclusive r.restarted) (hsole : r.connections.Sole)
    (hnone : r.restarted = []) (signals : List Signal)
    (hsignals : ∀ x ∈ (r.steps A signals).receipts, ¬ x.Doubles) :
    (r.steps A signals).restarted = [] := by
  induction signals generalizing r with
  | nil => exact hnone
  | cons signal signals ih =>
    have hsignal : ¬ Receipt.Doubles ⟨r.connections, signal⟩ := hsignals _
      ((receipts_steps (r := r.step A signal) signals).subset (List.mem_cons_self ..))
    obtain ⟨hsole', hquiet⟩ := sole_step (A := A) h hsole hsignal
    refine ih (exclusive_step h signal) hsole' ?_ hsignals
    rw [restarted_step, hquiet, hnone]
    rfl

/-- Over any connections, by any frames: a channel that is active is that of the attached source, or it
started over although no attached source had it. So of two active channels of different sources, one did
that. While no source announces itself on a second connection, none does. -/
theorem one_source_active (A : Applier ρ) (members : Membership) (conflicts : ConflictSettings)
    (replica : ρ) (signals : List Signal) :
    let r := (start (.new members .singleActiveSource conflicts replica)).steps A signals
    let g := r.connections.group
    (∀ n c, g.channels[n]? = some c → c.state = .active → n ∈ r.restarted ∨
        g.attachedSources = [c.source] ∧ g.channelOf? c.source = some c) ∧
      (∀ n n' c c', g.channels[n]? = some c → g.channels[n']? = some c' → c.source ≠ c'.source →
        c.state = .active → c'.state = .active → n ∈ r.restarted ∨ n' ∈ r.restarted) ∧
      ((∀ x ∈ r.receipts, ¬ x.Doubles) → r.restarted = []) := by
  intro r g
  have hstart : (TargetGroup.new members .singleActiveSource conflicts replica).Exclusive [] :=
    ⟨rfl, .inl rfl, fun s hs => (by cases hs), fun n c hc => (by cases hc)⟩
  have hend : g.Exclusive r.restarted := exclusive_steps (r := start _) hstart signals
  have hactive : ∀ n c, g.channels[n]? = some c → c.state = .active → n ∈ r.restarted ∨
      g.attachedSources = [c.source] ∧ g.channelOf? c.source = some c := by
    intro n c hc hstate
    refine (hend.shut n c hc (.inr hstate)).symm.imp_right fun hseats => ?_
    obtain ⟨⟨name, slot⟩, hs, hslot⟩ := List.any_eq_true.1 hseats
    have hslot : slot = ⟨n, true⟩ := of_decide_eq_true hslot
    subst hslot
    obtain ⟨c', hc', hsource⟩ := hend.own _ hs
    rw [hc] at hc'
    cases hc'
    have hslots : g.slots = [(c.source, ⟨n, true⟩)] := by
      rcases hend.alone with hempty | ⟨name', slot', hsingle⟩
      · rw [hempty] at hs
        cases hs
      · rw [hsingle] at hs ⊢
        rw [← List.mem_singleton.1 hs, hsource]
    refine ⟨?_, ?_⟩
    · rw [TargetGroup.attachedSources, hslots]
      simp [Table.sortedKeys, Table.keys]
    · rw [TargetGroup.channelOf?, hslots]
      simp [Table.get?, hc]
  refine ⟨hactive, fun n n' c c' hc hc' hother hstate hstate' => ?_, fun hsingle => ?_⟩
  · rcases hactive n c hc hstate with hn | ⟨hattached, -⟩
    · exact .inl hn
    · rcases hactive n' c' hc' hstate' with hn' | ⟨hattached', -⟩
      · exact .inr hn'
      · rw [hattached] at hattached'
        exact absurd (List.cons.inj hattached').1 hother
  · exact sole_steps (r := start _) hstart ⟨fun _ => .inl rfl, fun _ _ hnew => absurd rfl hnew⟩ rfl
      signals hsingle

/-- A write with this key. -/
def writeAt (key : Nat) (uid : String) : Frame :=
  .packet ⟨key, 1, false, false, .entry (.write ⟨"Order", uid, 1, [], none⟩)⟩

/-- The primary goes, and the backup takes over. -/
def handover : List Signal :=
  [.frame 0 (.connect "primary" "orders"), .frame 0 (.handshakeReply ⟨1, true, none⟩), .close 0,
    .frame 1 (.connect "backup" "orders"), .frame 1 (.handshakeReply ⟨1, true, none⟩)]

theorem one_source_active_handover :
    let r := (start (.new (.openTo "orders") .singleActiveSource .standard (.empty false))).steps
      Replica.applier handover
    r.connections.group.channels.map (·.state) = [.disconnected, .active] ∧ r.restarted = [] ∧
      ∀ (n : Nat) (c : TargetChannel), r.connections.group.channels[n]? = some c → c.state = .active →
        r.connections.group.attachedSources = [c.source] := by
  intro r
  obtain ⟨hactive, -, hquiet⟩ := one_source_active Replica.applier (.openTo "orders") .standard
    (.empty false) handover
  have hsingle : ∀ x ∈ r.receipts, ¬ x.Doubles := by
    rintro x hx ⟨connection, source, group, other, hsignal, hother, hsource⟩
    rcases hx with _ | ⟨_, _ | ⟨_, _ | ⟨_, _ | ⟨_, _ | ⟨_, hx⟩⟩⟩⟩⟩ <;> try cases hsignal
    · cases other with
      | zero => exact absurd hsource (by decide +kernel)
      | succ other => cases hsource
    · cases hsource
    · cases hx
  have hnone : r.restarted = [] := hquiet hsingle
  refine ⟨by decide +kernel, hnone, fun n c hc hstate => ?_⟩
  rcases hactive n c hc hstate with hn | ⟨hattached, -⟩
  · rw [hnone] at hn
    cases hn
  · exact hattached

/-- The primary comes back before its old connection is gone, and loses its seat when that closes. It
still has its channel, and lets it start over while the backup delivers. -/
def usurpation : List Signal :=
  [.frame 0 (.connect "primary" "orders"), .frame 0 (.handshakeReply ⟨1, true, none⟩),
    .frame 1 (.connect "primary" "orders"), .close 0,
    .frame 2 (.connect "backup" "orders"), .frame 2 (.handshakeReply ⟨1, true, none⟩),
    .frame 2 (writeAt 1 "b"), .frame 1 (.reject .resumeKeyCompacted "compacted"),
    .frame 1 (.handshakeReply ⟨1, true, none⟩), .frame 1 (writeAt 1 "a"), .frame 2 (writeAt 2 "c")]

/-- Both sources are active, and packets of both get into the copy that one of them dropped. -/
theorem two_sources_active :
    let r := (start (.new (.openTo "orders") .singleActiveSource .standard (.empty false))).steps
      Replica.applier usurpation
    r.connections.group.channels.map (fun c => (c.source, c.state))
        = [("primary", .active), ("backup", .active)] ∧
      r.connections.group.replica.entries.map (·.1) = ["a", "c"] ∧ r.restarted = [0] := by
  decide +kernel

end Reception

end GroupReplication
