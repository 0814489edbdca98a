/-
Connects that are refused. A connect that names another group, comes over a connection that is announced,
or names a source that may not attach changes nothing. One that comes while the channel of its source
negotiates over another connection is refused as well, but as the source was attached for it, it is detached
again: the negotiation that was under way is given up with it, and the answer to it will be out of place.

A group can come to this by whatever frames its connections get, and whatever else is done with its slots,
its channels, its members and its copy.
-/
import GroupReplication.Proofs.Target.GivenUp
import GroupReplication.Proofs.Target.Placed

namespace GroupReplication

open GroupReplication.Action

variable {ρ : Type} {A : Applier ρ}

/-! ## What a group can come to -/

namespace Receiver

variable {r : Receiver ρ}

/-- Work that comes to some calls comes to calls also when it fails. -/
theorem answer_of_calls {act : Action (Receiver ρ) Frame} (calls : List ChannelCall)
    (h : (act.perform r).2 = r.under A calls) : ∃ calls, (answer act r).2 = r.under A calls := by
  rw [answer]
  rcases hdone : act.perform r with ⟨e | reply, r'⟩
  · rw [hdone] at h
    refine ⟨calls ++ [.disconnect], ?_⟩
    rw [under_append, ← h]
    rfl
  · rw [hdone] at h
    exact ⟨calls, h⟩

/-- What a frame asks of a channel comes to calls. -/
theorem answer_calls {f : Frame} {act : Action (Receiver ρ) Frame} (hwork : f.work? A = some act)
    (r : Receiver ρ) : ∃ calls, (answer act r).2 = r.under A calls := by
  cases f with
  | handshakeReply response =>
    cases hwork
    refine answer_of_calls [.completeHandshake response] ?_
    rw [perform_bind]
    show _ = ((completeHandshake A response).perform r).2
    rcases (completeHandshake A response).perform r with ⟨_ | _, _⟩ <;> rfl
  | packet p =>
    cases hwork
    refine answer_of_calls [.consume p] ?_
    rw [perform_bind]
    show _ = ((consume A p).perform r).2
    rcases (consume A p).perform r with ⟨_ | _, _⟩ <;> rfl
  | batch ps =>
    cases hwork
    refine answer_of_calls [.consumeBatch ps] ?_
    rw [perform_bind]
    show _ = ((consumeBatch A ps).perform r).2
    rcases (consumeBatch A ps).perform r with ⟨_ | _, _⟩ <;> rfl
  | reject code text =>
    cases code with
    | resumeKeyCompacted =>
      cases hwork
      refine answer_of_calls [.disconnect, .requireResync, .requestHandshake] ?_
      rw [perform_onChannel_bind, perform_bind]
      show _ = (requestHandshake.perform { r with channel := r.channel.disconnected.requiringResync }).2
      rcases requestHandshake.perform { r with channel := r.channel.disconnected.requiringResync } with
        ⟨_ | _, _⟩ <;> rfl
    | _ =>
      cases hwork
      exact answer_of_calls [.disconnect] rfl
  | connect | handshake | ack => cases hwork

end Receiver

/-! ## Channels that are not being closed -/

theorem TargetChannel.disconnected_lasting {c : TargetChannel} (h : c.state ≠ .closing) :
    c.disconnected.state ≠ .closing := by
  unfold disconnected
  cases hstate : c.state with
  | closing => exact absurd hstate h
  | _ => exact fun heq => nomatch heq

/-- No call closes a channel. -/
theorem ChannelCall.leaves_lasting {r : Receiver ρ} (h : r.channel.state ≠ .closing)
    (call : ChannelCall) : (call.leaves A r).channel.state ≠ .closing := by
  have hkept : ∀ {r' : Receiver ρ}, r.Digests A False r' → r'.channel.state ≠ .closing := by
    intro r' hdigests
    rw [hdigests.channel.state]
    exact h
  cases call with
  | requestHandshake =>
    show (Receiver.requestHandshake.perform r).2.channel.state ≠ .closing
    rcases Receiver.requestHandshake_spec r with ⟨e, hdone⟩ | ⟨c, hdone, -, hstate, -⟩
    · rw [hdone]
      exact h
    · rw [hdone]
      exact fun heq => nomatch hstate.symm.trans heq
  | completeHandshake response =>
    show ((Receiver.completeHandshake A response).perform r).2.channel.state ≠ .closing
    rcases Receiver.completeHandshake_spec A response r with
      ⟨e, r', hdone, ⟨state, hsame, hstate⟩, -⟩ | ⟨r', hdone, haligned⟩
    · rw [hdone, hsame]
      rcases hstate with rfl | rfl
      · exact fun heq => nomatch heq
      · exact h
    · rw [hdone]
      exact fun heq => nomatch haligned.active.symm.trans heq
  | consume p => exact hkept (Receiver.digests_consume False.elim r (.refl r))
  | consumeBatch ps => exact hkept (Receiver.digests_consumeBatch False.elim r (.refl r))
  | flushBulk => exact hkept (Receiver.digests_flushBulk r (.refl r))
  | disconnect => exact TargetChannel.disconnected_lasting h
  | requireResync => exact h

theorem Receiver.under_lasting {r : Receiver ρ} (h : r.channel.state ≠ .closing)
    (calls : List ChannelCall) : (r.under A calls).channel.state ≠ .closing := by
  induction calls generalizing r with
  | nil => exact h
  | cons call calls ih => exact ih (call.leaves_lasting h)

namespace TargetGroup

variable {g : TargetGroup ρ} {source : String} {n : Nat} {c : TargetChannel}

/-- What a group can come to. Calls of a channel come from a connection, or from whoever attached it. -/
inductive Reachable (A : Applier ρ) : TargetGroup ρ → Prop where
  | new (members : Membership) (policy : AttachPolicy) (settings : ConflictSettings) (replica : ρ) :
      Reachable A (.new members policy settings replica)
  | attach {g : TargetGroup ρ} (h : Reachable A g) (source : String) :
      Reachable A ((TargetGroup.attach source).perform g).2
  | detach {g : TargetGroup ρ} (h : Reachable A g) (source : String) : Reachable A (g.detach source)
  | remove {g : TargetGroup ρ} (h : Reachable A g) (source : String) : Reachable A (g.remove source)
  | work {g : TargetGroup ρ} (h : Reachable A g) {n : Nat} {c : TargetChannel}
      (hc : g.channels[n]? = some c) (calls : List ChannelCall) :
      Reachable A (g.hosting n ((g.receiverOf c).under A calls))
  | members {g : TargetGroup ρ} (h : Reachable A g) (members : Membership) :
      Reachable A { g with membership := members }
  | copy {g : TargetGroup ρ} (h : Reachable A g) (replica : ρ) : Reachable A { g with replica }

theorem disconnect_missing (hc : g.channels[n]? = none) : g.disconnect n = g := by
  rw [disconnect, List.modify_eq_self (List.getElem?_eq_none_iff.1 hc)]

namespace Reachable

theorem disconnect (h : g.Reachable A) (n : Nat) : (g.disconnect n).Reachable A := by
  cases hc : g.channels[n]? with
  | none =>
    rw [disconnect_missing hc]
    exact h
  | some c =>
    rw [disconnect_found hc]
    exact h.work hc [.disconnect]

/-- Whatever frame comes over whatever connection, announced or not. -/
theorem receive (h : g.Reachable A) (s : Session) (f : Frame) : (s.receive A f g).2.2.Reachable A := by
  cases hwork : f.work? A with
  | some act =>
    cases hchannel : s.channel with
    | none =>
      rw [Session.receive_of_work hwork, Session.withChannel, hchannel]
      exact h
    | some n =>
      cases hc : g.channels[n]? with
      | none =>
        simp only [Session.receive_of_work hwork, Session.withChannel, hchannel, onChannel, perform_get_bind,
          hc, perform_throw]
        exact h.disconnect n
      | some c =>
        obtain ⟨calls, hcalls⟩ := Receiver.answer_calls hwork (g.receiverOf c)
        rw [Session.receive_found hwork hchannel hc, hcalls]
        exact h.work hc calls
  | none =>
    cases f with
    | connect source group =>
      show (Session.connect source group s g).2.2.Reachable A
      unfold Session.connect
      split
      · exact h
      · split
        · exact h
        · have hattached := h.attach source
          rcases hdone : (TargetGroup.attach source).perform g with ⟨e | n, g'⟩
          · rw [hdone] at hattached
            exact hattached
          · rw [hdone] at hattached
            have hasked : ((onChannel n Receiver.requestHandshake).perform g').2.Reachable A := by
              cases hc : g'.channels[n]? with
              | none =>
                simp only [onChannel, perform_get_bind, hc, perform_throw]
                exact hattached
              | some c =>
                rw [perform_onChannel_found hc]
                exact hattached.work hc [.requestHandshake]
            dsimp only
            rcases hshake : (onChannel n Receiver.requestHandshake).perform g' with ⟨e | request, g''⟩
            · rw [hshake] at hasked
              exact hasked.detach source
            · rw [hshake] at hasked
              exact hasked
    | handshake | ack => exact h
    | reject code text => cases code <;> cases hwork
    | handshakeReply | packet | batch => cases hwork

end Reachable

/-! ## Slots -/

/-- Every slot has a channel; with a single active source there is at most one slot. No channel is being
closed. -/
structure Slotted (g : TargetGroup ρ) : Prop where
  named : g.slots.keys.Nodup
  found : ∀ source slot, g.slots.get? source = some slot → slot.channel < g.channels.length
  alone : g.attachPolicy = .singleActiveSource → ∀ a ∈ g.slots, ∀ b ∈ g.slots, a.1 = b.1
  lasting : ∀ c ∈ g.channels, c.state ≠ .closing

/-- The group that a source is attached to, without the slots that it takes over. -/
def cleared (source : String) (g : TargetGroup ρ) : TargetGroup ρ :=
  if g.attachPolicy = .singleActiveSource then g.closeOthers source else g

/-- A source that may not attach, or not beside another one, is refused; any other gets its slot in what is
cleared for it. -/
theorem attach_cases (source : String) (g : TargetGroup ρ) :
    ((∃ e, (attach source).perform g = (.error e, g)) ∧ (g.membership.allowsSource source = false ∨
      g.attachPolicy = .singleActiveSource ∧ ∃ s ∈ g.slots, s.1 ≠ source)) ∨
      g.membership.allowsSource source = true ∧
        (attach source).perform g = (.ok ((g.cleared source).openSlot source).1,
          ((g.cleared source).openSlot source).2) := by
  cases hallowed : g.membership.allowsSource source with
  | false =>
    refine .inl ⟨⟨.unknownMember (.source source g.name), ?_⟩, .inl rfl⟩
    simp only [attach, perform_get_bind, hallowed, Bool.not_false, if_true]
    rfl
  | true =>
    by_cases hsingle : g.attachPolicy = .singleActiveSource
    · cases hother : g.slots.find? fun s => s.2.attached && s.1 ≠ source with
      | some s =>
        have hs : s.1 ≠ source := by
          have := List.find?_some hother
          simp only [Bool.and_eq_true, decide_eq_true_eq] at this
          exact this.2
        refine .inl ⟨⟨.sourceAlreadyAttached g.name s.1 source, ?_⟩,
          .inr ⟨hsingle, s, List.mem_of_find?_eq_some hother, hs⟩⟩
        simp only [attach, perform_get_bind, hallowed, Bool.not_true, Bool.false_eq_true, if_false,
          hsingle, if_true, hother]
        rfl
      | none =>
        refine .inr ⟨rfl, ?_⟩
        simp only [attach, perform_get_bind, hallowed, Bool.not_true, Bool.false_eq_true, if_false,
          hsingle, if_true, hother, perform_modify_bind, cleared]
        rfl
    · refine .inr ⟨rfl, ?_⟩
      simp only [attach, perform_get_bind, hallowed, Bool.not_true, Bool.false_eq_true, if_false, hsingle,
        cleared]
      rfl

/-- A source that is refused leaves the group as it is. -/
theorem attach_error {g' : TargetGroup ρ} {e : Error} (hdone : (attach source).perform g = (.error e, g')) :
    g' = g := by
  rcases attach_cases source g with ⟨⟨e', hfailed⟩, -⟩ | ⟨-, hopened⟩
  · rw [hdone] at hfailed
    exact congrArg Prod.snd hfailed
  · rw [hdone] at hopened
    cases hopened

/-- A member that has a slot is not refused: with a single active source there is no other slot. -/
theorem Slotted.attaches (h : g.Slotted) (hmember : g.membership.allowsSource source = true) {slot : Slot}
    (hslot : g.slots.get? source = some slot) :
    ∃ n g', (attach source).perform g = (.ok n, g') := by
  rcases attach_cases source g with ⟨-, hbarred | ⟨hsingle, other, hother, hname⟩⟩ | ⟨-, hopened⟩
  · rw [hmember] at hbarred
    cases hbarred
  · have hmem := (Table.get?_eq_some_iff_mem h.named).1 hslot
    exact absurd (h.alone hsingle other hother _ hmem) hname
  · exact ⟨_, _, hopened⟩

/-- A source that has the only slot takes over none. -/
theorem Slotted.cleared_of_slot (h : g.Slotted) {slot : Slot} (hslot : g.slots.get? source = some slot) :
    g.cleared source = g := by
  rw [cleared]
  split
  · rename_i hsingle
    have hmem := (Table.get?_eq_some_iff_mem h.named).1 hslot
    exact closeOthers_of_slots fun s hs => h.alone hsingle s hs _ hmem
  · rfl

/-- A source that has no slot is not given one yet. -/
theorem Slotted.cleared_missing (h : g.Slotted) (hslot : g.slots.get? source = none) :
    (g.cleared source).slots.get? source = none := by
  rw [TargetGroup.cleared]
  split
  · refine Option.eq_none_iff_forall_ne_some.2 fun slot hkept => ?_
    obtain ⟨-, hslot'⟩ := Table.get?_filter (p := fun name => decide (name = source)) h.named hkept
    rw [hslot] at hslot'
    cases hslot'
  · exact hslot

/-- The same slots, and as many channels. -/
theorem Slotted.same (h : g.Slotted) {g' : TargetGroup ρ} (hpolicy : g'.attachPolicy = g.attachPolicy)
    (hslots : g'.slots = g.slots) (hlength : g'.channels.length = g.channels.length)
    (hlasting : ∀ c ∈ g'.channels, c.state ≠ .closing) : g'.Slotted :=
  ⟨hslots ▸ h.named, fun source slot hslot => hlength ▸ h.found source slot (hslots ▸ hslot),
    fun hsingle => hslots ▸ h.alone (hpolicy ▸ hsingle), hlasting⟩

theorem Slotted.disconnect (h : g.Slotted) (n : Nat) : (g.disconnect n).Slotted := by
  refine h.same rfl rfl (List.length_modify ..) fun c hc => ?_
  obtain ⟨k, hk⟩ := List.mem_iff_getElem?.1 hc
  rw [TargetGroup.disconnect, List.getElem?_modify] at hk
  obtain ⟨c', hc', rfl⟩ := Option.map_eq_some_iff.1 hk
  have hlasting := h.lasting c' (List.mem_of_getElem? hc')
  split
  · exact TargetChannel.disconnected_lasting hlasting
  · exact hlasting

/-- Fewer slots, after their channels were disconnected. -/
theorem Slotted.closeOthers (h : g.Slotted) (source : String) : (g.closeOthers source).Slotted := by
  have hclosed : ∀ (stale : Table String Slot) {g : TargetGroup ρ}, g.Slotted →
      let g' := stale.foldl (fun g s => g.disconnect s.2.channel) g
      g'.Slotted ∧ g'.slots = g.slots := by
    intro stale
    induction stale with
    | nil => exact fun h => ⟨h, rfl⟩
    | cons s stale ih => exact fun h => ih (h.disconnect s.2.channel)
  obtain ⟨hslotted, hslots⟩ := hclosed (g.slots.filter (·.1 ≠ source)) h
  refine ⟨h.named.sublist (List.filter_sublist.map _), fun name slot hslot => ?_,
    fun hsingle a ha b hb => ?_, hslotted.lasting⟩
  · obtain ⟨-, hslot⟩ := Table.get?_filter (p := fun name => decide (name = source)) h.named hslot
    exact hslotted.found name slot (by rw [hslots]; exact hslot)
  · exact hslotted.alone hsingle a (by rw [hslots]; exact (List.mem_filter.1 ha).1) b
      (by rw [hslots]; exact (List.mem_filter.1 hb).1)

theorem Slotted.cleared (h : g.Slotted) (source : String) : (g.cleared source).Slotted ∧
    ((g.cleared source).attachPolicy = .singleActiveSource →
      ∀ s ∈ (g.cleared source).slots, s.1 = source) := by
  rw [TargetGroup.cleared]
  split
  · exact ⟨h.closeOthers source, fun _ s hs => by simpa using (List.mem_filter.1 hs).2⟩
  · rename_i hmulti
    exact ⟨h, fun hsingle => absurd hsingle hmulti⟩

/-- A slot is marked. -/
theorem Slotted.withSlot (h : g.Slotted) (slot : Slot) (hslot : slot.channel < g.channels.length)
    (halone : g.attachPolicy = .singleActiveSource → ∀ s ∈ g.slots, s.1 = source) :
    ({ g with slots := g.slots.insert source slot } : TargetGroup ρ).Slotted := by
  refine ⟨Table.nodup_keys_insert h.named, fun name slot' hslot' => ?_, fun hsingle a ha b hb => ?_,
    h.lasting⟩
  · by_cases hname : name = source
    · subst hname
      rw [Table.get?_insert_self] at hslot'
      cases hslot'
      exact hslot
    · rw [Table.get?_insert_other _ _ hname] at hslot'
      exact h.found name slot' hslot'
  · have hnamed : ∀ s ∈ g.slots.insert source slot, s.1 = source := fun s hs => by
      rcases Table.mem_keys_insert.1 (List.mem_map_of_mem (f := Prod.fst) hs) with hname | hname
      · exact hname
      · obtain ⟨s', hs', heq⟩ := List.mem_map.1 hname
        rw [← heq]
        exact halone hsingle s' hs'
    rw [hnamed a ha, hnamed b hb]

theorem Slotted.openSlot (h : g.Slotted)
    (halone : g.attachPolicy = .singleActiveSource → ∀ s ∈ g.slots, s.1 = source) :
    (g.openSlot source).2.Slotted := by
  unfold TargetGroup.openSlot
  cases hslot : g.slots.get? source with
  | some slot => exact h.withSlot ⟨slot.channel, true⟩ (h.found source slot hslot) halone
  | none =>
    have hgrown : ({ g with channels := g.channels ++ [.fresh g.name source g.settings] } :
        TargetGroup ρ).Slotted := by
      refine ⟨h.named, fun name slot hslot => ?_, h.alone, fun c hc => ?_⟩
      · rw [List.length_append]
        exact Nat.lt_add_right _ (h.found name slot hslot)
      · rcases List.mem_append.1 hc with hc | hc
        · exact h.lasting c hc
        · rw [List.mem_singleton.1 hc]
          exact fun hstate => nomatch hstate
    exact hgrown.withSlot ⟨g.channels.length, true⟩ (by simp) halone

theorem Slotted.detach (h : g.Slotted) (source : String) : (g.detach source).Slotted := by
  unfold TargetGroup.detach
  cases hslot : g.slots.get? source with
  | none => exact h
  | some slot =>
    have hreleased := h.withSlot ⟨slot.channel, false⟩ (h.found source slot hslot)
      fun hsingle s hs => h.alone hsingle s hs _ ((Table.get?_eq_some_iff_mem h.named).1 hslot)
    exact hreleased.disconnect slot.channel

/-- However a group came to be, its slots are in order. -/
theorem Reachable.slotted (h : g.Reachable A) : g.Slotted := by
  induction h with
  | new members policy settings replica =>
    exact ⟨List.nodup_nil, fun _ _ hslot => (nomatch hslot), fun _ a ha => (nomatch ha),
      fun c hc => nomatch hc⟩
  | @attach g h source ih =>
    rcases attach_cases source g with ⟨⟨e, hdone⟩, -⟩ | ⟨-, hdone⟩
    · rw [hdone]
      exact ih
    · rw [hdone]
      obtain ⟨hslotted, halone⟩ := ih.cleared source
      exact hslotted.openSlot halone
  | detach h source ih => exact ih.detach source
  | remove h source ih =>
    refine ⟨ih.named.sublist (List.filter_sublist.map _), fun name slot hslot => ?_,
      fun hsingle a ha b hb => ih.alone hsingle a (List.mem_filter.1 ha).1 b (List.mem_filter.1 hb).1,
      ih.lasting⟩
    exact ih.found name slot
      (Table.get?_filter (p := fun name => decide (name ≠ source)) ih.named hslot).2
  | @work g h n c hc calls ih =>
    refine ih.same rfl rfl (List.length_set ..) fun c' hc' => ?_
    rcases List.mem_or_eq_of_mem_set hc' with hc' | rfl
    · exact ih.lasting c' hc'
    · exact Receiver.under_lasting (r := g.receiverOf c) (ih.lasting c (List.mem_of_getElem? hc)) calls
  | members h members ih => exact ih.same rfl rfl rfl ih.lasting
  | copy h replica ih => exact ih.same rfl rfl rfl ih.lasting

end TargetGroup

/-! ## What a refused connect leaves -/

/-- What shows of a channel: its state, the key that it confirmed, its open bulk and what is staged. -/
def TargetChannel.shown (c : TargetChannel) : ChannelState × Nat × Option Bulk × Staged :=
  (c.state, c.lastConfirmed, c.bulk, c.staged)

/-- While the answer to a handshake is awaited no other one is asked for. -/
theorem Receiver.requestHandshake_negotiating {r : Receiver ρ} (h : r.channel.state = .handshaking) :
    requestHandshake.perform r = (.error (.channel (.transition .handshaking .handshaking)), r) := by
  rw [perform_requestHandshake, h]
  rfl

/-- Any other channel asks for one, unless it is being closed. -/
theorem Receiver.requestHandshake_ready {r : Receiver ρ} (h : r.channel.state ≠ .handshaking)
    (hlasting : r.channel.state ≠ .closing) :
    ∃ c, requestHandshake.perform r = (.ok c.request, { r with channel := c }) := by
  rw [perform_requestHandshake]
  cases hstate : r.channel.state with
  | handshaking => exact absurd hstate h
  | closing => exact absurd hstate hlasting
  | active => exact ⟨_, rfl⟩
  | disconnected => exact ⟨_, rfl⟩

namespace TargetGroup

variable {g : TargetGroup ρ} {source : String}

/-- The same sources are attached, the slots hold the same channels, and these show the same. -/
structure ShowsAs (g g' : TargetGroup ρ) : Prop where
  attached : g'.attachedSources = g.attachedSources
  slots : ∀ source, (g'.slots.get? source).map (·.channel) = (g.slots.get? source).map (·.channel)
  channels : ∀ source, (g'.channelOf? source).map (·.shown) = (g.channelOf? source).map (·.shown)

/-- The connect comes in the middle of a negotiation: it names this group and a member, over a connection
that is not announced, and the channel in the slot of the source waits for the answer to a handshake. -/
structure Interrupts (g : TargetGroup ρ) (s : Session) (source group : String) : Prop where
  group : group = g.name
  unannounced : s.source = none
  member : g.membership.allowsSource source = true
  negotiating : ∃ c, g.channelOf? source = some c ∧ c.state = .handshaking

/-- A source that is detached right after it was attached is detached. -/
theorem detach_attached {slot : Slot} (hslot : g.slots.get? source = some slot) :
    ({ g with slots := g.slots.insert source ⟨slot.channel, true⟩ } : TargetGroup ρ).detach source
      = g.detach source := by
  simp only [detach, Table.get?_insert_self, hslot, Table.insert_insert]

/-- The channel of a source that is detached is disconnected. -/
theorem channelOf?_detach {c : TargetChannel} (hc : g.channelOf? source = some c) :
    (g.detach source).channelOf? source = some c.disconnected := by
  obtain ⟨slot, hslot, hfound⟩ := Option.bind_eq_some_iff.1 hc
  simp only [detach, hslot, channelOf?, TargetGroup.disconnect, Table.get?_insert_self, Option.bind_some,
    List.getElem?_modify, hfound]
  rfl

/-- The source is attached for a connect: its channel asks for a handshake, or it is detached again. -/
theorem connect_of_attach {s : Session} {group : String} (hgroup : group = g.name)
    (hannounced : s.source = none) {n : Nat} {g' : TargetGroup ρ}
    (hdone : (attach source).perform g = (.ok n, g')) :
    s.connect source group g = match (onChannel n Receiver.requestHandshake).perform g' with
      | (.ok request, g) => (.handshake request, ⟨some source, some n⟩, g)
      | (.error e, g) => (e.rejection, s, g.detach source) := by
  rw [Session.connect, if_neg (not_not_intro hgroup), hannounced, hdone]
  rfl

/-- A channel that can ask for a handshake does. -/
theorem connect_ready {s : Session} {group : String} (hgroup : group = g.name)
    (hannounced : s.source = none) {n : Nat} {g' : TargetGroup ρ}
    (hdone : (attach source).perform g = (.ok n, g')) {c : TargetChannel} (hc : g'.channels[n]? = some c)
    (hstate : c.state ≠ .handshaking) (hlasting : c.state ≠ .closing) :
    ∃ request s' g'', s.connect source group g = (.handshake request, s', g'') := by
  obtain ⟨c', hasked⟩ := Receiver.requestHandshake_ready (r := g'.receiverOf c) hstate hlasting
  rw [connect_of_attach hgroup hannounced hdone, perform_onChannel_found hc, hasked]
  exact ⟨_, _, _, rfl⟩

/-- A channel that negotiates cannot. -/
theorem connect_negotiating {s : Session} {group : String} (hgroup : group = g.name)
    (hannounced : s.source = none) {n : Nat} {g' : TargetGroup ρ}
    (hdone : (attach source).perform g = (.ok n, g')) {c : TargetChannel} (hc : g'.channels[n]? = some c)
    (hstate : c.state = .handshaking) :
    ∃ code text, s.connect source group g = (.reject code text, s, g'.detach source) := by
  rw [connect_of_attach hgroup hannounced hdone, perform_onChannel_found hc,
    Receiver.requestHandshake_negotiating (r := g'.receiverOf c) hstate, hosting_receiverOf hc]
  exact ⟨_, _, rfl⟩

/-- The slot of a source opens with a channel that can ask for a handshake, or with one that negotiates. -/
theorem Slotted.connect_attached (h : g.Slotted) (s : Session) {group : String} (hgroup : group = g.name)
    (hannounced : s.source = none) {n : Nat} {g' : TargetGroup ρ}
    (hdone : (attach source).perform g = (.ok n, g')) :
    (∃ request s' g'', s.connect source group g = (.handshake request, s', g'')) ∨
      g.Interrupts s source group ∧
        ∃ code text, s.connect source group g = (.reject code text, s, g.detach source) := by
  obtain ⟨hmember, hopened⟩ : g.membership.allowsSource source = true ∧
      (attach source).perform g = (.ok ((g.cleared source).openSlot source).1,
        ((g.cleared source).openSlot source).2) := by
    rcases attach_cases source g with ⟨⟨e, hfailed⟩, -⟩ | hopened
    · rw [hdone] at hfailed
      cases hfailed
    · exact hopened
  cases hslot : g.slots.get? source with
  | some slot =>
    obtain ⟨c, hc⟩ : ∃ c, g.channels[slot.channel]? = some c :=
      ⟨_, List.getElem?_eq_getElem (h.found source slot hslot)⟩
    rw [h.cleared_of_slot hslot, TargetGroup.openSlot, hslot] at hopened
    by_cases hstate : c.state = .handshaking
    · refine .inr ⟨⟨hgroup, hannounced, hmember, c, ?_, hstate⟩, ?_⟩
      · rw [channelOf?, hslot]
        exact hc
      · rw [← detach_attached hslot]
        exact connect_negotiating hgroup hannounced hopened hc hstate
    · exact .inl (connect_ready hgroup hannounced hopened hc hstate
        (h.lasting c (List.mem_of_getElem? hc)))
  | none =>
    rw [TargetGroup.openSlot, h.cleared_missing hslot] at hopened
    exact .inl (connect_ready hgroup hannounced hopened List.getElem?_concat_length
      (fun heq => by cases heq) fun heq => by cases heq)

/-- A connect is refused before it does anything, or in the middle of a negotiation. -/
theorem Slotted.connect_refused_cases (h : g.Slotted) (s : Session) {group : String}
    (hrefused : ∃ code text, (s.connect source group g).1 = .reject code text) :
    ¬ g.Interrupts s source group ∧ (s.connect source group g).2 = (s, g) ∨
      g.Interrupts s source group ∧ (s.connect source group g).2 = (s, g.detach source) := by
  by_cases hgroup : group = g.name
  · cases hannounced : s.source with
    | some name =>
      refine .inl ⟨fun hinterrupts => ?_, ?_⟩
      · rw [hinterrupts.unannounced] at hannounced
        cases hannounced
      · simp only [Session.connect, hgroup, ne_eq, not_true_eq_false, if_false, hannounced,
          Option.isSome_some, if_true]
    | none =>
      rcases hdone : (attach source).perform g with ⟨e | n, g'⟩
      · refine .inl ⟨fun hinterrupts => ?_, ?_⟩
        · obtain ⟨c, hc, -⟩ := hinterrupts.negotiating
          obtain ⟨slot, hslot, -⟩ := Option.bind_eq_some_iff.1 hc
          obtain ⟨n, g'', hok⟩ := h.attaches hinterrupts.member hslot
          rw [hdone] at hok
          cases hok
        · rw [Session.connect, if_neg (not_not_intro hgroup), hannounced, hdone, attach_error hdone]
          rfl
      · rcases h.connect_attached s hgroup hannounced hdone with
          ⟨request, s', g'', hshake⟩ | ⟨hinterrupts, code, text, hrejected⟩
        · obtain ⟨code, text, hreply⟩ := hrefused
          rw [hshake] at hreply
          cases hreply
        · exact .inr ⟨hinterrupts, congrArg Prod.snd hrejected⟩
  · refine .inl ⟨fun hinterrupts => hgroup hinterrupts.group, ?_⟩
    simp only [Session.connect, ne_eq, hgroup, not_false_eq_true, if_true]

end TargetGroup

/-- In any group, a connect that is refused leaves the connection as it is. It changes what shows of the
group if and only if it comes in the middle of a negotiation. Otherwise it leaves all of the group as it is;
in the middle of a negotiation it detaches the source, whose channel is disconnected by that. -/
theorem Session.connect_refused {g : TargetGroup ρ} (hg : g.Reachable A) (s : Session)
    (source group : String)
    (hrefused : ∃ code text, (s.receive A (.connect source group) g).1 = .reject code text) :
    let g' := (s.receive A (.connect source group) g).2.2
    (s.receive A (.connect source group) g).2.1 = s ∧
    (g.ShowsAs g' ↔ ¬ g.Interrupts s source group) ∧
    (¬ g.Interrupts s source group → g' = g) ∧
    (g.Interrupts s source group → g' = g.detach source ∧
      ∃ c, g.channelOf? source = some c ∧ g'.channelOf? source = some c.disconnected) := by
  intro g'
  rcases hg.slotted.connect_refused_cases s hrefused with ⟨hnot, hsame⟩ | ⟨hinterrupts, hdetaches⟩
  · have hg' : g' = g := congrArg Prod.snd hsame
    refine ⟨congrArg Prod.fst hsame, ⟨fun _ => hnot, fun _ => ?_⟩, fun _ => hg',
      fun hinterrupts => absurd hinterrupts hnot⟩
    rw [hg']
    exact ⟨rfl, fun _ => rfl, fun _ => rfl⟩
  · have hg' : g' = g.detach source := congrArg Prod.snd hdetaches
    obtain ⟨c, hc, hstate⟩ := hinterrupts.negotiating
    have hdetached : g'.channelOf? source = some c.disconnected := by
      rw [hg']
      exact TargetGroup.channelOf?_detach hc
    refine ⟨congrArg Prod.fst hdetaches, ⟨fun hshows => ?_, fun hnot => absurd hinterrupts hnot⟩,
      fun hnot => absurd hinterrupts hnot, fun _ => ⟨hg', c, hc, hdetached⟩⟩
    -- the channel negotiated, and no longer does
    have hshown := hshows.channels source
    rw [hdetached, hc] at hshown
    have hsame : c.disconnected.state = c.state := congrArg Prod.fst (Option.some.inj hshown)
    rw [TargetChannel.disconnected, hstate] at hsame
    cases hsame

namespace TargetGroup

/-- A connection of "primary" waits for the answer to its handshake. -/
def negotiatingGroup : TargetGroup Replica :=
  (Session.receive Replica.applier (.connect "primary" "orders") .new
    (.new (.openTo "orders") .singleActiveSource .standard (.empty false))).2.2

theorem negotiatingGroup_reachable : negotiatingGroup.Reachable Replica.applier :=
  (Reachable.new ..).receive .new (.connect "primary" "orders")

end TargetGroup

/-- A connect of another source is refused, and leaves the one that negotiates alone. -/
theorem Session.connect_refused_other :
    (Session.receive Replica.applier (.connect "backup" "orders") .new TargetGroup.negotiatingGroup).2.2
      = TargetGroup.negotiatingGroup :=
  (connect_refused TargetGroup.negotiatingGroup_reachable .new "backup" "orders"
    ⟨_, _, rfl⟩).2.2.1 fun h => by
      obtain ⟨c, hc, -⟩ := h.negotiating
      cases hc

/-- A second connect of the source that negotiates is refused, and yet the source is detached and its channel
no longer negotiates. -/
theorem Session.second_connect_detaches :
    let out := Session.receive Replica.applier (.connect "primary" "orders") .new
      TargetGroup.negotiatingGroup
    TargetGroup.negotiatingGroup.Reachable Replica.applier ∧
      out.1 = .reject .protocol "Channel error: invalid channel transition HANDSHAKING -> HANDSHAKING" ∧
      TargetGroup.negotiatingGroup.attachedSources = ["primary"] ∧ out.2.2.attachedSources = [] ∧
      (TargetGroup.negotiatingGroup.channelOf? "primary").map (·.state) = some .handshaking ∧
      (out.2.2.channelOf? "primary").map (·.state) = some .disconnected ∧
      ¬ TargetGroup.negotiatingGroup.ShowsAs out.2.2 := by
  refine ⟨TargetGroup.negotiatingGroup_reachable, by decide +kernel, by decide +kernel, by decide +kernel,
    by decide +kernel, by decide +kernel, fun h => ?_⟩
  exact absurd h.attached (by decide +kernel)

end GroupReplication
