/-
Where the channels of a group stand. Every connection that was announced holds a channel of its source,
and so does every slot. With a single active source a connection can hold a channel that the slot has
given up. With any number of sources no channel is ever given up, so each source has one channel, which
all its connections share.
-/
import GroupReplication.Proofs.Table
import GroupReplication.Proofs.Target.Answer

namespace GroupReplication

open GroupReplication.Action

/-! ## Groups -/

namespace TargetGroup

variable {ρ : Type} {g g' g'' : TargetGroup ρ} {c : TargetChannel} {source other : String} {n : Nat}

/-- The group with all channels that there were, each still of its source. -/
structure Follows (g g' : TargetGroup ρ) : Prop where
  membership : g'.membership = g.membership
  policy : g'.attachPolicy = g.attachPolicy
  settings : g'.settings = g.settings
  channels : ∀ (n : Nat) (c : TargetChannel), g.channels[n]? = some c →
    ∃ c', g'.channels[n]? = some c' ∧ c'.source = c.source

namespace Follows

theorem refl (g : TargetGroup ρ) : g.Follows g := ⟨rfl, rfl, rfl, fun _ c hc => ⟨c, hc, rfl⟩⟩

theorem trans (h : g.Follows g') (h' : g'.Follows g'') : g.Follows g'' := by
  refine ⟨h'.membership.trans h.membership, h'.policy.trans h.policy, h'.settings.trans h.settings,
    fun n c hc => ?_⟩
  obtain ⟨c', hc', hsource⟩ := h.channels n c hc
  obtain ⟨c'', hc'', hsource'⟩ := h'.channels n c' hc'
  exact ⟨c'', hc'', hsource'.trans hsource⟩

theorem disconnect (n : Nat) (g : TargetGroup ρ) : g.Follows (g.disconnect n) := by
  refine ⟨rfl, rfl, rfl, fun k c hc => ?_⟩
  rw [TargetGroup.disconnect, List.getElem?_modify, hc]
  split
  · exact ⟨_, rfl, rfl⟩
  · exact ⟨c, rfl, rfl⟩

end Follows

/-- Every slot has a channel of its source. With any number of sources, every channel has the slot of its
source. -/
structure Placed (g : TargetGroup ρ) : Prop where
  named : g.slots.keys.Nodup
  slot : ∀ source slot, g.slots.get? source = some slot →
    ∃ c, g.channels[slot.channel]? = some c ∧ c.source = source
  kept : g.attachPolicy = .multiSource → ∀ (n : Nat) (c : TargetChannel), g.channels[n]? = some c →
    ∃ attached, g.slots.get? c.source = some ⟨n, attached⟩

/-- The channel that a source has, or would get. -/
def channelFor (source : String) (g : TargetGroup ρ) : TargetChannel :=
  g.orFresh source (g.channelOf? source)

theorem mem_attachedSources (h : g.slots.keys.Nodup) :
    source ∈ g.attachedSources ↔ ∃ n, g.slots.get? source = some ⟨n, true⟩ := by
  simp only [attachedSources, Table.sortedKeys, List.mem_mergeSort, Table.keys, List.mem_map,
    List.mem_filter, Table.get?_eq_some_iff_mem h]
  constructor
  · rintro ⟨⟨name, channel, attached⟩, ⟨hmem, hattached⟩, rfl⟩
    cases hattached
    exact ⟨channel, hmem⟩
  · rintro ⟨n, hmem⟩
    exact ⟨_, ⟨hmem, rfl⟩, rfl⟩

theorem channelFor_of_slot {slot : Slot} (hslot : g.slots.get? source = some slot)
    (hc : g.channels[slot.channel]? = some c) : g.channelFor source = c := by
  rw [channelFor, channelOf?, hslot, Option.bind_some, hc]
  rfl

theorem channelFor_of_none (hslot : g.slots.get? source = none) :
    g.channelFor source = .fresh g.name source g.settings := by
  rw [channelFor, channelOf?, hslot]
  rfl

/-- Nothing else decides about the channel of a source. -/
theorem channelFor_congr (hname : g'.name = g.name) (hsettings : g'.settings = g.settings)
    (hchannel : g'.channelOf? source = g.channelOf? source) :
    g'.channelFor source = g.channelFor source := by
  rw [channelFor, channelFor, orFresh, orFresh, hchannel, hname, hsettings]

namespace Placed

/-- With any number of sources every channel is that of its source. -/
theorem channelFor_eq (h : g.Placed) (hmulti : g.attachPolicy = .multiSource)
    (hc : g.channels[n]? = some c) : g.channelFor c.source = c := by
  obtain ⟨attached, hslot⟩ := h.kept hmulti n c hc
  exact channelFor_of_slot hslot hc

/-- With any number of sources every source has one channel. -/
theorem channel_unique (h : g.Placed) (hmulti : g.attachPolicy = .multiSource) {m : Nat}
    {c' : TargetChannel} (hc : g.channels[n]? = some c) (hc' : g.channels[m]? = some c')
    (hsource : c'.source = c.source) : n = m := by
  obtain ⟨attached, hslot⟩ := h.kept hmulti n c hc
  obtain ⟨attached', hslot'⟩ := h.kept hmulti m c' hc'
  rw [hsource, hslot] at hslot'
  cases hslot'
  rfl

/-! ### Work on a channel -/

theorem hosting (h : g.Placed) (hc : g.channels[n]? = some c) {r : Receiver ρ}
    (hsource : r.channel.source = c.source) : (g.hosting n r).Placed ∧ g.Follows (g.hosting n r) := by
  have hself := getElem?_hosting_self hc r
  have hforth : ∀ (k : Nat) (c' : TargetChannel), g.channels[k]? = some c' →
      ∃ c'', (g.hosting n r).channels[k]? = some c'' ∧ c''.source = c'.source := by
    intro k c' hc'
    by_cases hk : n = k
    · subst hk
      rw [hc] at hc'
      cases hc'
      exact ⟨_, hself, hsource⟩
    · exact ⟨c', (getElem?_hosting_other (Ne.symm hk) r).trans hc', rfl⟩
  refine ⟨⟨h.named, fun source slot hslot => ?_, fun hmulti k c' hc' => ?_⟩, rfl, rfl, rfl, hforth⟩
  · obtain ⟨c', hc', hnamed⟩ := h.slot source slot hslot
    obtain ⟨c'', hc'', hsame⟩ := hforth _ c' hc'
    exact ⟨c'', hc'', hsame.trans hnamed⟩
  · by_cases hk : n = k
    · subst hk
      rw [hself] at hc'
      cases hc'
      exact hsource ▸ h.kept hmulti n c hc
    · rw [getElem?_hosting_other (Ne.symm hk) r] at hc'
      exact h.kept hmulti k c' hc'

/-- With any number of sources the work changes the channel of one source. -/
theorem channelFor_hosting (h : g.Placed) (hmulti : g.attachPolicy = .multiSource)
    (hc : g.channels[n]? = some c) (r : Receiver ρ) :
    (g.hosting n r).channelFor c.source = r.channel ∧
      ∀ other, other ≠ c.source → (g.hosting n r).channelFor other = g.channelFor other := by
  obtain ⟨attached, hslot⟩ := h.kept hmulti n c hc
  refine ⟨channelFor_of_slot (g := g.hosting n r) hslot (getElem?_hosting_self hc r),
    fun other hother => channelFor_congr rfl rfl ?_⟩
  show ((g.slots.get? other).bind fun slot => (g.channels.set n r.channel)[slot.channel]?) = _
  rw [channelOf?]
  cases hslot' : g.slots.get? other with
  | none => rfl
  | some slot =>
    obtain ⟨c', hc', hsource⟩ := h.slot other slot hslot'
    refine List.getElem?_set_ne fun hn => hother ?_
    subst hn
    rw [hc] at hc'
    cases hc'
    exact hsource.symm

/-! ### Slots -/

/-- Attaching or detaching a source keeps its channel. -/
theorem withSlot (h : g.Placed) {slot : Slot} (hslot : g.slots.get? source = some slot)
    (attached : Bool) :
    ({ g with slots := g.slots.insert source ⟨slot.channel, attached⟩ } : TargetGroup ρ).Placed ∧
      ∀ other, ({ g with slots := g.slots.insert source ⟨slot.channel, attached⟩ } :
        TargetGroup ρ).channelFor other = g.channelFor other := by
  refine ⟨⟨Table.nodup_keys_insert h.named, fun name slot' hslot' => ?_, fun hmulti n c hc => ?_⟩,
    fun other => channelFor_congr rfl rfl ?_⟩
  · by_cases hname : name = source
    · subst hname
      rw [Table.get?_insert_self] at hslot'
      cases hslot'
      exact h.slot name slot hslot
    · rw [Table.get?_insert_other _ _ hname] at hslot'
      exact h.slot name slot' hslot'
  · obtain ⟨was, hwas⟩ := h.kept hmulti n c hc
    by_cases hname : c.source = source
    · rw [hname, hslot] at hwas
      cases hwas
      exact ⟨attached, by rw [hname]; exact Table.get?_insert_self ..⟩
    · exact ⟨was, (Table.get?_insert_other _ _ hname).trans hwas⟩
  · show ((g.slots.insert source ⟨slot.channel, attached⟩).get? other).bind _ = _
    rw [channelOf?]
    by_cases hother : other = source
    · subst hother
      rw [Table.get?_insert_self, hslot]
      rfl
    · rw [Table.get?_insert_other _ _ hother]

/-- The channels of a group with one more. -/
theorem getElem?_grown {c' : TargetChannel} :
    (g.channels ++ [c'])[n]? = some c ↔ g.channels[n]? = some c ∨ n = g.channels.length ∧ c = c' := by
  rw [List.getElem?_append]
  split
  · rename_i hlt
    exact ⟨.inl, fun h => h.resolve_right fun hlast => absurd hlast.1 (Nat.ne_of_lt hlt)⟩
  · rename_i hge
    rw [List.getElem?_singleton, List.getElem?_eq_none (Nat.le_of_not_lt hge)]
    split <;> grind

/-- A new source gets a fresh channel. -/
theorem withNewSlot (h : g.Placed) (hslot : g.slots.get? source = none) (attached : Bool) :
    ({ g with
        channels := g.channels ++ [.fresh g.name source g.settings]
        slots := g.slots.insert source ⟨g.channels.length, attached⟩ } : TargetGroup ρ).Placed ∧
      ∀ other, ({ g with
        channels := g.channels ++ [.fresh g.name source g.settings]
        slots := g.slots.insert source ⟨g.channels.length, attached⟩ } : TargetGroup ρ).channelFor other
          = g.channelFor other := by
  refine ⟨⟨Table.nodup_keys_insert h.named, fun name slot' hslot' => ?_, fun hmulti k c hc => ?_⟩,
    fun other => ?_⟩
  · by_cases hname : name = source
    · subst hname
      rw [Table.get?_insert_self] at hslot'
      cases hslot'
      exact ⟨_, List.getElem?_concat_length, rfl⟩
    · rw [Table.get?_insert_other _ _ hname] at hslot'
      obtain ⟨c, hc, hsource⟩ := h.slot name slot' hslot'
      exact ⟨c, getElem?_grown.2 (.inl hc), hsource⟩
  · rcases getElem?_grown.1 hc with hold | ⟨rfl, rfl⟩
    · obtain ⟨was, hwas⟩ := h.kept hmulti k c hold
      refine ⟨was, (Table.get?_insert_other _ _ fun hname => ?_).trans hwas⟩
      rw [hname, hslot] at hwas
      cases hwas
    · exact ⟨attached, Table.get?_insert_self ..⟩
  · by_cases hother : other = source
    · subst hother
      rw [channelFor_of_none hslot]
      exact channelFor_of_slot (Table.get?_insert_self ..) List.getElem?_concat_length
    · refine channelFor_congr rfl rfl ?_
      show ((g.slots.insert source ⟨g.channels.length, attached⟩).get? other).bind _ = _
      rw [Table.get?_insert_other _ _ hother, channelOf?]
      cases hslot' : g.slots.get? other with
      | none => rfl
      | some slot' =>
        obtain ⟨c, hc, -⟩ := h.slot other slot' hslot'
        exact (getElem?_grown.2 (.inl hc)).trans hc.symm

theorem openSlot (h : g.Placed) (source : String) :
    (g.openSlot source).2.Placed ∧ g.Follows (g.openSlot source).2 ∧
      (g.openSlot source).2.slots.get? source = some ⟨(g.openSlot source).1, true⟩ ∧
      ((g.openSlot source).2.replica = g.replica ∧ (g.openSlot source).2.journal = g.journal) ∧
      ∀ other, (g.openSlot source).2.channelFor other = g.channelFor other := by
  unfold TargetGroup.openSlot
  cases hslot : g.slots.get? source with
  | some slot =>
    obtain ⟨hplaced, hchannels⟩ := h.withSlot hslot true
    exact ⟨hplaced, ⟨rfl, rfl, rfl, fun _ c hc => ⟨c, hc, rfl⟩⟩, Table.get?_insert_self ..,
      ⟨rfl, rfl⟩, hchannels⟩
  | none =>
    obtain ⟨hplaced, hchannels⟩ := h.withNewSlot hslot true
    exact ⟨hplaced, ⟨rfl, rfl, rfl, fun _ c hc => ⟨c, getElem?_grown.2 (.inl hc), rfl⟩⟩,
      Table.get?_insert_self .., ⟨rfl, rfl⟩, hchannels⟩

/-- With a single active source the channels of the others lose their slots. -/
theorem closeOthers (h : g.Placed) (hsingle : g.attachPolicy = .singleActiveSource)
    (source : String) :
    (g.closeOthers source).Placed ∧ g.Follows (g.closeOthers source) ∧
      (g.closeOthers source).replica = g.replica ∧ (g.closeOthers source).journal = g.journal := by
  have hclosed : ∀ (slots : Table String Slot) (g : TargetGroup ρ),
      let g' := slots.foldl (fun g s => g.disconnect s.2.channel) g
      g.Follows g' ∧ g'.replica = g.replica ∧ g'.journal = g.journal := by
    intro slots
    induction slots with
    | nil => exact fun g => ⟨.refl g, rfl, rfl⟩
    | cons slot slots ih =>
      intro g
      obtain ⟨hfollows, hreplica, hjournal⟩ := ih (g.disconnect slot.2.channel)
      exact ⟨(Follows.disconnect slot.2.channel g).trans hfollows, hreplica, hjournal⟩
  obtain ⟨hfollows, hreplica, hjournal⟩ := hclosed (g.slots.filter (·.1 ≠ source)) g
  refine ⟨⟨h.named.sublist (List.filter_sublist.map _), fun name slot hslot => ?_, fun hmulti => ?_⟩,
    ⟨hfollows.membership, hfollows.policy, hfollows.settings, hfollows.channels⟩, hreplica, hjournal⟩
  · obtain ⟨-, hslot⟩ := Table.get?_filter (p := fun name => decide (name = source)) h.named hslot
    obtain ⟨c, hc, hsource⟩ := h.slot name slot hslot
    obtain ⟨c', hc', hsame⟩ := hfollows.channels _ c hc
    exact ⟨c', hc', hsame.trans hsource⟩
  · have hpolicy : g.attachPolicy = .multiSource := hfollows.policy.symm.trans hmulti
    rw [hsingle] at hpolicy
    cases hpolicy

/-- What attaching a source makes of a group. -/
structure Attaches (source : String) (n : Nat) (g g' : TargetGroup ρ) : Prop where
  placed : g'.Placed
  follows : g.Follows g'
  slot : g'.slots.get? source = some ⟨n, true⟩
  replica : g'.replica = g.replica
  journal : g'.journal = g.journal
  others : g.attachPolicy = .multiSource → ∀ other, g'.channelFor other = g.channelFor other

theorem attach (h : g.Placed) (source : String) :
    (∃ e, (TargetGroup.attach source).perform g = (.error e, g)) ∨
      ∃ n g', (TargetGroup.attach source).perform g = (.ok n, g') ∧ Attaches source n g g' := by
  cases hallowed : g.membership.allowsSource source with
  | false =>
    refine .inl ⟨.unknownMember (.source source g.name), ?_⟩
    simp only [TargetGroup.attach, perform_get_bind, hallowed, Bool.not_false, if_true]
    rfl
  | true =>
    cases hpolicy : g.attachPolicy with
    | multiSource =>
      obtain ⟨hplaced, hfollows, hslot, ⟨hreplica, hjournal⟩, hchannels⟩ := h.openSlot source
      refine .inr ⟨_, _, ?_, hplaced, hfollows, hslot, hreplica, hjournal, fun _ => hchannels⟩
      simp only [TargetGroup.attach, perform_get_bind, hallowed, Bool.not_true, Bool.false_eq_true,
        if_false, hpolicy, reduceCtorEq]
      rfl
    | singleActiveSource =>
      cases hother : g.slots.find? fun s => s.2.attached && s.1 ≠ source with
      | some s =>
        refine .inl ⟨.sourceAlreadyAttached g.name s.1 source, ?_⟩
        simp only [TargetGroup.attach, perform_get_bind, hallowed, Bool.not_true, Bool.false_eq_true,
          if_false, hpolicy, if_true, hother]
        rfl
      | none =>
        obtain ⟨hclosed, hfollows, hreplica, hjournal⟩ := h.closeOthers hpolicy source
        obtain ⟨hplaced, hfollows', hslot, ⟨hreplica', hjournal'⟩, -⟩ := hclosed.openSlot source
        refine .inr ⟨_, _, ?_, hplaced, hfollows.trans hfollows', hslot, hreplica'.trans hreplica,
          hjournal'.trans hjournal, fun hmulti => ?_⟩
        · simp only [TargetGroup.attach, perform_get_bind, hallowed, Bool.not_true,
            Bool.false_eq_true, if_false, hpolicy, if_true, hother, perform_modify_bind]
          rfl
        · rw [hpolicy] at hmulti
          cases hmulti

/-- What detaching a source makes of a group: the channel in its slot is disconnected. -/
structure Detaches (source : String) (g g' : TargetGroup ρ) : Prop where
  placed : g'.Placed
  follows : g.Follows g'
  attached : ∀ other, other ∈ g'.attachedSources ↔ other ∈ g.attachedSources ∧ other ≠ source
  replica : g'.replica = g.replica
  journal : g'.journal = g.journal
  channel : g'.channelOf? source = (g.channelOf? source).map (·.disconnected)
  others : ∀ other, other ≠ source → g'.channelOf? other = g.channelOf? other
  rest : ∀ n, (∀ slot, g.slots.get? source = some slot → slot.channel ≠ n) →
    g'.channels[n]? = g.channels[n]?

theorem detach (h : g.Placed) (source : String) : Detaches source g (g.detach source) := by
  unfold TargetGroup.detach
  cases hslot : g.slots.get? source with
  | none =>
    refine ⟨h, .refl g, fun other => ⟨fun hmem => ⟨hmem, ?_⟩, And.left⟩, rfl, rfl, ?_, fun _ _ => rfl,
      fun _ _ => rfl⟩
    · rintro rfl
      obtain ⟨n, hattached⟩ := (mem_attachedSources h.named).1 hmem
      rw [hslot] at hattached
      cases hattached
    · rw [channelOf?, hslot]
      rfl
  | some slot =>
    obtain ⟨c, hc, hsource⟩ := h.slot source slot hslot
    have hlength := (List.getElem?_eq_some_iff.1 hc).1
    obtain ⟨hmarked, -⟩ := h.withSlot hslot false
    have hhosting := disconnect_found
      (g := { g with slots := g.slots.insert source ⟨slot.channel, false⟩ }) hc
    obtain ⟨hplaced, hfollows⟩ := hmarked.hosting (r := ⟨c.disconnected, g.replica, g.journal⟩) hc rfl
    simp only [hhosting]
    refine ⟨hplaced, ⟨rfl, rfl, rfl, hfollows.channels⟩, fun other => ?_, rfl, rfl, ?_,
      fun other hother => ?_, fun n hn => ?_⟩
    · rw [mem_attachedSources hplaced.named, mem_attachedSources h.named]
      show (∃ n, (g.slots.insert source ⟨slot.channel, false⟩).get? other = some ⟨n, true⟩) ↔ _
      by_cases hother : other = source
      · subst hother
        simp
      · simp [Table.get?_insert_other _ _ hother, hother]
    · show ((g.slots.insert source ⟨slot.channel, false⟩).get? source).bind
        (fun s => (g.channels.set slot.channel c.disconnected)[s.channel]?) = _
      rw [Table.get?_insert_self, Option.bind_some, List.getElem?_set_self hlength, channelOf?, hslot,
        Option.bind_some, hc]
      rfl
    · show ((g.slots.insert source ⟨slot.channel, false⟩).get? other).bind
        (fun s => (g.channels.set slot.channel c.disconnected)[s.channel]?) = _
      rw [Table.get?_insert_other _ _ hother, channelOf?]
      cases hslot' : g.slots.get? other with
      | none => rfl
      | some slot' =>
        obtain ⟨c', hc', hnamed⟩ := h.slot other slot' hslot'
        refine List.getElem?_set_ne fun hn => hother ?_
        rw [← hn, hc] at hc'
        cases hc'
        exact hnamed.symm.trans hsource
    · exact List.getElem?_set_ne (hn slot hslot)

end Placed

end TargetGroup

/-! ## Connections -/

/-- What announcing a source comes to: it is refused and changes nothing, or the source is attached and
its channel asks for a handshake. A channel that cannot do so leaves the source detached. -/
theorem Session.connect_placed {ρ : Type} {g : TargetGroup ρ} (h : g.Placed) (source group : String)
    (s : Session) :
    (∃ code text, connect source group s g = (.reject code text, s, g)) ∨
      s.source = none ∧ ∃ n g' c, TargetGroup.Placed.Attaches source n g g' ∧
        g'.channels[n]? = some c ∧ c.source = source ∧
        ((∃ code text, connect source group s g = (.reject code text, s, g'.detach source)) ∨
          ∃ c', connect source group s g = (.handshake c'.request, ⟨some source, some n⟩,
              g'.hosting n ⟨c', g'.replica, g'.journal⟩) ∧
            Receiver.requestHandshake.perform (g'.receiverOf c)
              = (.ok c'.request, ⟨c', g'.replica, g'.journal⟩) ∧ c.Stands c') := by
  unfold connect
  by_cases hgroup : group = g.name
  · cases hannounced : s.source with
    | some name =>
      simp only [hgroup, ne_eq, not_true_eq_false, if_false, Option.isSome_some, if_true]
      exact .inl ⟨_, _, rfl⟩
    | none =>
      simp only [hgroup, ne_eq, not_true_eq_false, if_false, Option.isSome_none, Bool.false_eq_true]
      rcases h.attach source with ⟨e, he⟩ | ⟨n, g', hok, hattaches⟩
      · rw [he]
        exact .inl ⟨_, _, rfl⟩
      · obtain ⟨c, hc, hsource⟩ := hattaches.placed.slot source _ hattaches.slot
        refine .inr ⟨trivial, n, g', c, hattaches, hc, hsource, ?_⟩
        simp only [hok, TargetGroup.perform_onChannel_found hc]
        rcases Receiver.requestHandshake_spec (g'.receiverOf c) with
          ⟨e, he⟩ | ⟨c', hasked, hstands, -⟩
        · rw [he, TargetGroup.hosting_receiverOf hc]
          exact .inl ⟨_, _, rfl⟩
        · rw [hasked]
          exact .inr ⟨c', rfl, rfl, hstands⟩
  · simp only [ne_eq, hgroup, not_false_eq_true, if_true]
    exact .inl ⟨_, _, rfl⟩

namespace Connections

variable {ρ : Type} {A : Applier ρ} {t : Connections ρ} {g : TargetGroup ρ}

/-- A connection is not announced, or holds a channel of its source. -/
def Holds (s : Session) (g : TargetGroup ρ) : Prop :=
  s = .new ∨ ∃ source n c, s = ⟨some source, some n⟩ ∧ g.channels[n]? = some c ∧ c.source = source

theorem Holds.follows {s : Session} {g' : TargetGroup ρ} (h : Holds s g) (hfollows : g.Follows g') :
    Holds s g' := by
  rcases h with hnew | ⟨source, n, c, hannounced, hc, hsource⟩
  · exact .inl hnew
  · obtain ⟨c', hc', hsame⟩ := hfollows.channels n c hc
    exact .inr ⟨source, n, c', hannounced, hc', hsame.trans hsource⟩

/-- Every connection holds a channel of its source, and so does every slot. -/
structure Bound (t : Connections ρ) : Prop where
  placed : t.group.Placed
  holds : ∀ i, Holds (t.sessions i) t.group

/-- What a signal comes to. It is refused; or a connect attaches its source, whose channel asks for a
handshake or, if it cannot, leaves the source detached; or the channel of the connection does what the frame
asks for; or the connection is closed, which detaches its source. -/
inductive Turn (A : Applier ρ) (t : Connections ρ) : Signal → Option Frame × Connections ρ → Prop where
  | refused {i : Nat} {f : Frame} {code : RejectCode} {text : String} :
      Turn A t (.frame i f) (some (.reject code text), t.update i (t.sessions i) t.group)
  | opened {i n : Nat} {source group : String} {g : TargetGroup ρ} {c c' : TargetChannel}
      (attaches : TargetGroup.Placed.Attaches source n t.group g) (found : g.channels[n]? = some c)
      (named : c.source = source)
      (asked : Receiver.requestHandshake.perform (g.receiverOf c)
        = (.ok c'.request, ⟨c', g.replica, g.journal⟩))
      (stands : c.Stands c') :
      Turn A t (.frame i (.connect source group)) (some (.handshake c'.request),
        t.update i ⟨some source, some n⟩ (g.hosting n ⟨c', g.replica, g.journal⟩))
  | failed {i n : Nat} {source group : String} {g : TargetGroup ρ} {code : RejectCode} {text : String}
      (attaches : TargetGroup.Placed.Attaches source n t.group g) :
      Turn A t (.frame i (.connect source group)) (some (.reject code text),
        t.update i (t.sessions i) (g.detach source))
  | worked {i n : Nat} {f : Frame} {act : Action (Receiver ρ) Frame} {source : String}
      {c : TargetChannel} (announced : t.sessions i = ⟨some source, some n⟩)
      (found : t.group.channels[n]? = some c) (named : c.source = source) (work : f.work? A = some act) :
      Turn A t (.frame i f) (some (Receiver.answer act (t.group.receiverOf c)).1,
        t.update i (t.sessions i) (t.group.hosting n (Receiver.answer act (t.group.receiverOf c)).2))
  | closed {i : Nat} :
      Turn A t (.close i) (none, t.update i .new ((t.sessions i).source.elim t.group t.group.detach))

namespace Bound

theorem start (members : Membership) (policy : AttachPolicy) (settings : ConflictSettings)
    (replica : ρ) : (Connections.start (.new members policy settings replica)).Bound :=
  ⟨⟨List.nodup_nil, fun _ _ hslot => (nomatch hslot), fun _ _ _ hc => (nomatch hc)⟩, fun _ => .inl rfl⟩

/-- A connection that was announced holds a channel of its source. -/
theorem channel_of_source (h : t.Bound) {i : Nat} {source : String}
    (hi : (t.sessions i).source = some source) :
    ∃ n c, t.sessions i = ⟨some source, some n⟩ ∧ t.group.channels[n]? = some c ∧ c.source = source := by
  rcases h.holds i with hnew | ⟨name, n, c, hsession, hc, hsource⟩
  · rw [hnew] at hi
    cases hi
  · rw [hsession] at hi
    cases hi
    exact ⟨n, c, hsession, hc, hsource⟩

theorem turn (h : t.Bound) (signal : Signal) : Turn A t signal (t.receive A signal) := by
  cases signal with
  | close i => exact .closed
  | frame i f =>
    have hrefused : (∃ code text, (t.sessions i).receive A f t.group
        = (.reject code text, t.sessions i, t.group)) → Turn A t (.frame i f) (t.receive A (.frame i f)) := by
      rintro ⟨code, text, hreply⟩
      simp only [Connections.receive, hreply]
      exact .refused
    rcases h.holds i with hnew | ⟨source, n, c, hannounced, hc, hsource⟩
    · by_cases hconnect : ∃ source group, f = .connect source group
      · obtain ⟨source, group, rfl⟩ := hconnect
        rcases Session.connect_placed h.placed source group (t.sessions i) with hreply |
          ⟨-, n, g', c, hattaches, hc, hsource, ⟨code, text, hreply⟩ | ⟨c', hreply, hasked, hstands⟩⟩
        · exact hrefused hreply
        · simp only [Connections.receive, Session.receive, hreply]
          exact .failed hattaches
        · simp only [Connections.receive, Session.receive, hreply]
          exact .opened hattaches hc hsource hasked hstands
      · exact hrefused (Session.receive_unannounced (by rw [hnew]; rfl)
          fun source group heq => hconnect ⟨source, group, heq⟩)
    · cases hwork : f.work? A with
      | none =>
        obtain ⟨code, text, hreply⟩ := Session.receive_refused hwork t.group
        exact hrefused ⟨code, text, hreply _ (by rw [hannounced]; rfl)⟩
      | some act =>
        have hreply := Session.receive_found (s := t.sessions i) hwork (by rw [hannounced]) hc
        simp only [Connections.receive, hreply]
        exact .worked hannounced hc hsource hwork

theorem update (h : t.Bound) {i : Nat} {s : Session} (hplaced : g.Placed) (hfollows : t.group.Follows g)
    (hs : Holds s g) : (t.update i s g).Bound := by
  refine ⟨hplaced, fun j => ?_⟩
  show Holds (if j = i then s else t.sessions j) g
  split
  · exact hs
  · exact (h.holds j).follows hfollows

theorem receive (h : t.Bound) (signal : Signal) :
    (t.receive A signal).2.Bound ∧ t.group.Follows (t.receive A signal).2.group := by
  have hturn := h.turn (A := A) signal
  generalize t.receive A signal = out at hturn ⊢
  cases hturn with
  | @refused i => exact ⟨h.update h.placed (.refl _) (h.holds i), .refl _⟩
  | @opened i n source group g c c' hattaches hc hsource hasked hstands =>
    obtain ⟨hplaced, hfollows⟩ := hattaches.placed.hosting (r := ⟨c', g.replica, g.journal⟩) hc hstands.source
    have hfollows := hattaches.follows.trans hfollows
    exact ⟨h.update hplaced hfollows (.inr ⟨source, n, c', rfl, TargetGroup.getElem?_hosting_self hc _,
      hstands.source.trans hsource⟩), hfollows⟩
  | @failed i n source group g code text hattaches =>
    have hdetaches := hattaches.placed.detach source
    have hfollows := hattaches.follows.trans hdetaches.follows
    exact ⟨h.update hdetaches.placed hfollows ((h.holds i).follows hfollows), hfollows⟩
  | @worked i n f act source c hannounced hc hsource hwork =>
    obtain ⟨hplaced, hfollows⟩ := h.placed.hosting hc (Receiver.source_answer hwork hc)
    exact ⟨h.update hplaced hfollows ((h.holds i).follows hfollows), hfollows⟩
  | @closed i =>
    show (t.update i .new ((t.sessions i).source.elim t.group t.group.detach)).Bound ∧
      t.group.Follows ((t.sessions i).source.elim t.group t.group.detach)
    cases (t.sessions i).source with
    | none => exact ⟨h.update h.placed (.refl _) (.inl rfl), .refl _⟩
    | some source =>
      have hdetaches := h.placed.detach source
      exact ⟨h.update hdetaches.placed hdetaches.follows (.inl rfl), hdetaches.follows⟩

end Bound

end Connections

/-- After any signals every connection holds a channel of its source. -/
theorem Reception.bound_steps {ρ : Type} {A : Applier ρ} {r : Reception ρ}
    (h : r.connections.Bound) (signals : List Signal) :
    (r.steps A signals).connections.Bound ∧
      r.connections.group.Follows (r.steps A signals).connections.group := by
  induction signals generalizing r with
  | nil => exact ⟨h, .refl _⟩
  | cons signal signals ih =>
    obtain ⟨hbound, hfollows⟩ := h.receive (A := A) signal
    obtain ⟨hbound', hfollows'⟩ := ih (r := r.step A signal) hbound
    exact ⟨hbound', hfollows.trans hfollows'⟩

end GroupReplication
