/-
Conflicts do not reach the sender. On a copy in memory an effect is applied, or the conflict that it
meets is resolved: a write takes the place of what is there, and anything else is skipped and leaves the
copy as it was (`Resolves`). Nothing of this can fail, so an active channel consumes every packet that
does not skip a key, and counts each effect that this carries out once.

The channel may be any: what it has staged and what it holds back need not come from packets that it
was sent.
-/
import GroupReplication.Proofs.Target.Consumed
import GroupReplication.Proofs.Target.Tally

namespace GroupReplication

open GroupReplication.Action

/-! ## One effect -/

namespace Replica

/-- What becomes of an effect on a copy, and of the copy. Only a write can be taken over. -/
inductive Resolves (settings : ConflictSettings) (transient : Bool) (r : Replica) :
    Effect → Outcome → Replica → Prop where
  | applied {effect : Effect} {r' : Replica} (done : r.apply effect transient = .ok r') :
      Resolves settings transient r effect .applied r'
  | overwritten {e : EntryImage} {conflict : Conflict}
      (met : r.apply (.entry (.write e)) transient = .error conflict)
      (decided : settings.decide .write conflict transient = .apply) :
      Resolves settings transient r (.entry (.write e)) (.overwritten conflict)
        (r.store e.uid (entryOf e false))
  | ignored {effect : Effect} {severity : Severity} {conflict : Conflict}
      (met : r.apply effect transient = .error conflict)
      (decided : settings.decide effect.kind conflict transient = .ignore severity) :
      Resolves settings transient r effect (.ignored severity conflict) r
  | reported {effect : Effect} {severity : Severity} {conflict : Conflict}
      (met : r.apply effect transient = .error conflict)
      (decided : settings.decide effect.kind conflict transient = .report severity) :
      Resolves settings transient r effect (.reported severity conflict) r

/-- Every effect is resolved, whatever the copy holds. -/
theorem resolves_settle (settings : ConflictSettings) (transient : Bool) (effect : Effect)
    (r : Replica) : r.Resolves settings transient effect
      (effect.settle applier settings transient r).1 (effect.settle applier settings transient r).2 := by
  cases happly : r.apply effect transient with
  | ok r' =>
    rw [settle_of_ok happly]
    exact .applied happly
  | error conflict =>
    cases hdecide : settings.decide effect.kind conflict transient with
    | apply =>
      obtain ⟨e, rfl⟩ := Effect.eq_write_of_decide hdecide
      rw [settle_of_overruled happly hdecide]
      exact .overwritten happly hdecide
    | ignore severity =>
      simp only [Effect.settle, apply_of_conflict happly, hdecide]
      exact .ignored happly hdecide
    | report severity =>
      simp only [Effect.settle, apply_of_conflict happly, hdecide]
      exact .reported happly hdecide

end Replica

namespace TargetStats

/-- How many effects were settled, one way or another. -/
def settled (s : TargetStats) : Nat := s.applied + s.ignored + s.reported + s.overwritten

/-- The counts after these outcomes. -/
def countAll (outcomes : List Outcome) (s : TargetStats) : TargetStats :=
  outcomes.foldl (fun s o => s.count o) s

end TargetStats

/-- An outcome that comes of resolving is counted once. -/
theorem Replica.Resolves.settled_count {settings : ConflictSettings} {transient : Bool}
    {effect : Effect} {r r' : Replica} {outcome : Outcome}
    (h : r.Resolves settings transient effect outcome r') (s : TargetStats) :
    (s.count outcome).settled = s.settled + 1 := by
  simp only [TargetStats.settled]
  cases h <;> simp only [TargetStats.count] <;> omega

/-! ## Effects of packets one after the other -/

/-- The effects of packets that are applied in their order, each with its packet, and what they leave
staged. -/
def Packet.effectsInTurn : List Packet → Staged → List (Packet × Effect) × Staged
  | [], staged => ([], staged)
  | p :: ps, staged =>
    let first := p.payload.effects staged
    let rest := effectsInTurn ps first.2
    (first.1.map (p, ·) ++ rest.1, rest.2)

/-- Effects meet the copy one after the other, each as the one before left it. -/
inductive Replica.ResolvesAll (settings : ConflictSettings) :
    Replica → List (Packet × Effect) → List Outcome → Replica → Prop where
  | nil (r : Replica) : ResolvesAll settings r [] [] r
  | cons {r r' r'' : Replica} {p : Packet} {effect : Effect} {outcome : Outcome}
      {works : List (Packet × Effect)} {outcomes : List Outcome}
      (first : r.Resolves settings p.transient effect outcome r')
      (rest : ResolvesAll settings r' works outcomes r'') :
      ResolvesAll settings r ((p, effect) :: works) (outcome :: outcomes) r''

namespace Replica.ResolvesAll

variable {settings : ConflictSettings} {r r' r'' : Replica} {works works' : List (Packet × Effect)}
  {outcomes outcomes' : List Outcome}

theorem append (h : r.ResolvesAll settings works outcomes r')
    (h' : r'.ResolvesAll settings works' outcomes' r'') :
    r.ResolvesAll settings (works ++ works') (outcomes ++ outcomes') r'' := by
  induction h with
  | nil => exact h'
  | cons hfirst _ ih => exact .cons hfirst (ih h')

theorem settled_countAll (h : r.ResolvesAll settings works outcomes r') (s : TargetStats) :
    (s.countAll outcomes).settled = s.settled + works.length := by
  induction h generalizing s with
  | nil => rfl
  | @cons _ _ _ _ _ outcome _ _ hfirst _ ih =>
    have hrest := ih (s.count outcome)
    rw [hfirst.settled_count] at hrest
    rw [List.length_cons]
    exact hrest.trans (by omega)

end Replica.ResolvesAll

/-- What packets made of the takings of a channel: of the copy, of what is staged, and of the counts. -/
structure Takings.Resolve (settings : ConflictSettings) (ps : List Packet) (t : Takings Replica)
    (outcomes : List Outcome) (t' : Takings Replica) : Prop where
  replica : t.replica.ResolvesAll settings (Packet.effectsInTurn ps t.staged).1 outcomes t'.replica
  staged : t'.staged = (Packet.effectsInTurn ps t.staged).2
  counts : t'.counts = t.counts.countAll outcomes

theorem Packet.effectsInTurn_append (ps qs : List Packet) (staged : Staged) :
    effectsInTurn (ps ++ qs) staged =
      ((effectsInTurn ps staged).1 ++ (effectsInTurn qs (effectsInTurn ps staged).2).1,
        (effectsInTurn qs (effectsInTurn ps staged).2).2) := by
  induction ps generalizing staged with
  | nil => rfl
  | cons p ps ih =>
    simp only [List.cons_append, effectsInTurn, ih, List.append_assoc]

namespace Takings.Resolve

variable {settings : ConflictSettings} {ps qs : List Packet} {t t' t'' : Takings Replica}
  {outcomes outcomes' : List Outcome}

theorem nil (settings : ConflictSettings) (t : Takings Replica) : t.Resolve settings [] [] t :=
  ⟨.nil _, rfl, rfl⟩

theorem append (h : t.Resolve settings ps outcomes t') (h' : t'.Resolve settings qs outcomes' t'') :
    t.Resolve settings (ps ++ qs) (outcomes ++ outcomes') t'' := by
  obtain ⟨hreplica, hstaged, hcounts⟩ := h'
  rw [h.staged] at hreplica hstaged
  refine ⟨?_, ?_, ?_⟩
  · rw [Packet.effectsInTurn_append]
    exact h.replica.append hreplica
  · rw [Packet.effectsInTurn_append]
    exact hstaged
  · rw [hcounts, h.counts, TargetStats.countAll, TargetStats.countAll, TargetStats.countAll,
      List.foldl_append]

end Takings.Resolve

/-- The effects of one packet are all resolved. -/
theorem Effect.resolvesAll_tallyAll (settings : ConflictSettings) (p : Packet) (effects : List Effect)
    (w : Replica × TargetStats) : ∃ outcomes,
      w.1.ResolvesAll settings (effects.map (p, ·)) outcomes
        (tallyAll Replica.applier settings p.transient effects w).1 ∧
      (tallyAll Replica.applier settings p.transient effects w).2 = w.2.countAll outcomes := by
  induction effects generalizing w with
  | nil => exact ⟨[], .nil _, rfl⟩
  | cons effect rest ih =>
    obtain ⟨outcomes, hrest, hcounts⟩ :=
      ih ((effect.settle Replica.applier settings p.transient w.1).2,
        w.2.count (effect.settle Replica.applier settings p.transient w.1).1)
    exact ⟨_, .cons (Replica.resolves_settle settings p.transient effect w.1) hrest, hcounts⟩

theorem Packet.resolve_tally (settings : ConflictSettings) (p : Packet) (t : Takings Replica) :
    ∃ outcomes, t.Resolve settings [p] outcomes (p.tally Replica.applier settings t) := by
  obtain ⟨outcomes, hreplica, hcounts⟩ := Effect.resolvesAll_tallyAll settings p
    (p.payload.effects t.staged).1 (t.replica, t.counts)
  refine ⟨outcomes, ?_, rfl, hcounts⟩
  rw [effectsInTurn, effectsInTurn, List.append_nil]
  exact hreplica

/-! ## What a channel carries out -/

/-- The packets that are applied when `p` is consumed, in their order. One that comes again is, unless it
is held back or a confirmed phase of a transaction. One that comes next is applied or held back with its
bulk, and the packets of a bulk that it ends are applied before. -/
def TargetChannel.due (p : Packet) (c : TargetChannel) : List Packet :=
  if p.key ≤ c.lastReceived then
    if (c.bulk.bind (·.firstKey)).any (· ≤ p.key) ∨
        (p.payload.isPhase = true ∧ p.key ≤ c.lastConfirmed) then []
    else [p]
  else match p.bulk with
    | some id => if c.bulk.any (·.id ≠ id) then c.held else []
    | none => c.held ++ [p]

/-- The effects that are carried out when `p` is consumed, those of an ended bulk and those that were
staged for a transaction among them. -/
def TargetChannel.dueEffects (p : Packet) (c : TargetChannel) : List (Packet × Effect) :=
  (Packet.effectsInTurn (c.due p) c.staged).1

namespace Receiver

variable {r r' r'' : Receiver Replica} {ps qs : List Packet}

/-- What applying packets leaves of a channel and its copy. -/
structure Carries (ps : List Packet) (r r' : Receiver Replica) : Prop where
  advances : r.channel.Advances r'.channel
  resolve : ∃ outcomes, r.takings.Resolve r.channel.settings ps outcomes r'.takings

theorem Carries.trans (h : Carries ps r r') (h' : Carries qs r' r'') : Carries (ps ++ qs) r r'' := by
  obtain ⟨outcomes, hfirst⟩ := h.resolve
  obtain ⟨outcomes', hrest⟩ := h'.resolve
  rw [h.advances.settings] at hrest
  exact ⟨h.advances.trans h'.advances, _, hfirst.append hrest⟩

/-- Nothing is carried out by a change of the channel that leaves its takings. -/
theorem carries_nil (hadvances : r.channel.Advances r'.channel) (htakings : r'.takings = r.takings) :
    Carries [] r r' :=
  ⟨hadvances, [], htakings ▸ .nil _ _⟩

theorem carries_applyPacket (p : Packet) (r : Receiver Replica) : ∃ w stats,
    (applyPacket Replica.applier p).perform r = (.ok (), r.withWork w stats) ∧
      Carries [p] r (r.withWork w stats) := by
  obtain ⟨w, stats, happly, htally⟩ := applyPacket_tallies (Replica.not_canFail) p (r := r) rfl
  obtain ⟨outcomes, hresolve⟩ := p.resolve_tally r.channel.settings r.takings
  exact ⟨w, stats, happly, ⟨rfl, rfl, rfl, rfl, Nat.le_refl _⟩, outcomes, htally ▸ hresolve⟩

theorem carries_applyPackets (ps : List Packet) (r : Receiver Replica) : ∃ w stats,
    (applyPackets Replica.applier ps).perform r = (.ok (), r.withWork w stats) ∧
      Carries ps r (r.withWork w stats) := by
  induction ps generalizing r with
  | nil => exact ⟨r.work, r.channel.stats, rfl, carries_nil (.refl _) rfl⟩
  | cons p ps ih =>
    obtain ⟨w, stats, hfirst, hcarries⟩ := carries_applyPacket p r
    obtain ⟨w', stats', hrest, hcarries'⟩ := ih (r.withWork w stats)
    refine ⟨w', stats', ?_, hcarries.trans hcarries'⟩
    rw [applyPackets, perform_bind_ok hfirst, hrest]
    rfl

/-- The end of a bulk carries out what was held back. -/
theorem carries_flushBulk (r : Receiver Replica) : ∃ r',
    (flushBulk Replica.applier).perform r = (.ok (), r') ∧ Carries r.channel.held r r' := by
  cases hbulk : r.channel.bulk with
  | none =>
    refine ⟨r, ?_, ?_⟩
    · simp only [flushBulk, perform_get_bind, hbulk]
      rfl
    · rw [TargetChannel.held_of_none hbulk]
      exact carries_nil (.refl _) rfl
  | some bulk =>
    let r₀ : Receiver Replica := { r with channel := { r.channel with bulk := none } }
    obtain ⟨w, stats, happly, hcarries⟩ := carries_applyPackets bulk.packets r₀
    have hopened : Carries bulk.packets r (r₀.withWork w stats) :=
      (carries_nil ⟨rfl, rfl, rfl, rfl, Nat.le_refl _⟩ rfl : Carries [] r r₀).trans hcarries
    rw [TargetChannel.held_of_some hbulk]
    cases hlast : bulk.packets.getLast? with
    | none =>
      refine ⟨r₀.withWork w stats, ?_, hopened⟩
      simp only [flushBulk, perform_get_bind, hbulk, perform_onChannel_bind]
      rw [perform_bind_ok happly]
      simp only [hlast]
      rfl
    | some last =>
      let r₁ : Receiver Replica := { r₀.withWork w stats with channel :=
        { (r₀.withWork w stats).channel with confirmation := r.channel.confirmation.advance last.key } }
      refine ⟨r₁, ?_, ?_⟩
      · simp only [flushBulk, perform_get_bind, hbulk, perform_onChannel_bind]
        rw [perform_bind_ok happly]
        simp only [hlast]
        rfl
      · have hconfirms : r.channel.lastConfirmed
            ≤ (r.channel.confirmation.advance last.key).lastConfirmed := by
          rw [Confirmation.lastConfirmed_advance]
          exact Nat.le_max_left _ _
        have hclosed : Carries [] (r₀.withWork w stats) r₁ :=
          carries_nil ⟨rfl, rfl, rfl, rfl, hconfirms⟩ rfl
        have hall := hopened.trans hclosed
        rwa [List.append_nil] at hall

/-- Taking a packet in only moves the keys of the channel. -/
theorem carries_tookIn (key : Nat) (r : Receiver Replica) :
    Carries [] r { r with channel := r.channel.tookIn key } := by
  refine carries_nil ⟨rfl, rfl, rfl, rfl, ?_⟩ rfl
  show r.channel.lastConfirmed ≤ (r.channel.confirmation.advance _).lastConfirmed
  rw [Confirmation.lastConfirmed_advance]
  exact Nat.le_max_left _ _

theorem carries_receiveNext {p : Packet} {r : Receiver Replica}
    (hnext : r.channel.lastReceived < p.key) : ∃ r',
    (receiveNext Replica.applier p).perform r = (.ok (), r') ∧ Carries (r.channel.due p) r r' := by
  have hcounted : Carries [] r r.counted := carries_nil ⟨rfl, rfl, rfl, rfl, Nat.le_refl _⟩ rfl
  obtain ⟨r₁, hflush, hflushed⟩ := carries_flushBulk r.counted
  have hended : Carries r.channel.held r r₁ := hcounted.trans hflushed
  rw [TargetChannel.due, if_neg (Nat.not_le.2 hnext)]
  cases hid : p.bulk with
  | none =>
    obtain ⟨w, stats, happly, hcarries⟩ := carries_applyPacket p r₁
    refine ⟨{ r₁.withWork w stats with channel := (r₁.withWork w stats).channel.tookIn p.key }, ?_, ?_⟩
    · rw [perform_receiveNext_single hid, perform_bind_ok hflush, perform_bind_ok happly]
      rfl
    · have hall := (hended.trans hcarries).trans (carries_tookIn p.key (r₁.withWork w stats))
      rwa [List.append_nil] at hall
  | some id =>
    rw [perform_receiveNext_bulk hid]
    have hheld : ∀ r : Receiver Replica,
        Carries [] r { r with channel := (r.channel.holdBack id p).tookIn p.key } := fun r =>
      (carries_nil ⟨rfl, rfl, rfl, rfl, Nat.le_refl _⟩ rfl :
        Carries [] r { r with channel := r.channel.holdBack id p }).trans (carries_tookIn p.key _)
    dsimp only
    split
    · refine ⟨_, (perform_bind_ok hflush).trans (perform_onChannel _ _), ?_⟩
      have hall := hended.trans (hheld r₁)
      rwa [List.append_nil] at hall
    · exact ⟨_, (perform_bind_ok rfl).trans (perform_onChannel _ _), hcounted.trans (hheld _)⟩

theorem carries_replay {p : Packet} {r : Receiver Replica} (hagain : p.key ≤ r.channel.lastReceived) :
    ∃ r', (replay Replica.applier p).perform r = (.ok (), r') ∧ Carries (r.channel.due p) r r' := by
  have hcounted : Carries [] r r.countedAgain := carries_nil ⟨rfl, rfl, rfl, rfl, Nat.le_refl _⟩ rfl
  rw [perform_replay_counted, TargetChannel.due, if_pos hagain]
  by_cases hpassed : (r.channel.bulk.bind (·.firstKey)).any (· ≤ p.key) = true ∨
      (p.payload.isPhase = true ∧ p.key ≤ r.channel.lastConfirmed)
  · rw [if_pos hpassed, if_neg (by simpa [or_iff_not_imp_left] using hpassed)]
    exact ⟨_, rfl, hcounted⟩
  · obtain ⟨w, stats, happly, hcarries⟩ := carries_applyPacket p r.countedAgain
    rw [if_neg hpassed, if_pos (by simpa [or_iff_not_imp_left] using hpassed)]
    exact ⟨_, happly, hcounted.trans hcarries⟩

/-- Take any copy in memory and any active channel over it, with any conflict settings, and any packet
whose key is at most the next one, where there is a next one: one of 64 bits. The packet is consumed, with
the confirmed key for an answer, and the channel stays active. What is due by it, effect by effect, is
resolved: an effect that is ignored or reported leaves the copy as it was, and only a write is taken over.
The counts are those of the outcomes, so they go up by one for each effect. -/
theorem conflicts_resolved (r : Receiver Replica) (p : Packet) (hactive : r.channel.state = .active)
    (hkey : p.key ≤ r.channel.lastReceived + 1) (hnext : r.channel.lastReceived + 1 < 2 ^ 64) :
    ∃ r' outcomes,
      (consume Replica.applier p).perform r = (.ok r'.channel.lastConfirmed, r') ∧
      r'.channel.state = .active ∧
      r.replica.ResolvesAll r.channel.settings (r.channel.dueEffects p) outcomes r'.replica ∧
      r'.channel.stats.outcomes = r.channel.stats.outcomes.countAll outcomes ∧
      r'.channel.stats.settled = r.channel.stats.settled + (r.channel.dueEffects p).length := by
  obtain ⟨r', hdone, hadvances, outcomes, hresolve⟩ : ∃ r',
      (if p.key < r.channel.lastReceived + 1 then replay Replica.applier p
        else receiveNext Replica.applier p).perform r = (.ok (), r') ∧
      Carries (r.channel.due p) r r' := by
    split
    · exact carries_replay (by omega)
    · exact carries_receiveNext (by omega)
  have hcounts : r'.channel.stats.outcomes = r.channel.stats.outcomes.countAll outcomes :=
    hresolve.counts
  refine ⟨r', outcomes, ?_, hadvances.state.trans hactive, hresolve.replica, hcounts, ?_⟩
  · rw [perform_consume_of_takes ⟨hactive, hkey, hnext⟩, hdone]
  · have hsettled := hresolve.replica.settled_countAll r.channel.stats.outcomes
    rw [← hcounts] at hsettled
    exact hsettled

/-- The channel of a central store holds back a write to an entry that is there already. Three operations
are staged: on an entry that is locked, on one that is missing, and on one in a later version. -/
def contested : Receiver Replica where
  channel :=
    { TargetChannel.fresh "orders" "primary" ⟨.centralStore, .debug, .info⟩ with
      state := .active
      confirmation := .upTo 1
      lastReceived := 2
      staged := [(9, [.update ⟨"Order", "b", 2, [], none⟩, .take ⟨"Order", "c", 1, [], none⟩,
        .change ⟨"Order", "a", 1, 2, [], none⟩])]
      bulk := some ⟨7, [⟨2, 1, false, false, .entry (.write ⟨"Order", "a", 5, [], some 7⟩)⟩]⟩ }
  replica := (((Replica.empty false).store "a" ⟨"Order", 3, [], [], false⟩).store "b"
    ⟨"Order", 1, [], [], false⟩).lock "b" 4
  journal := []

/-- The commit that ends the bulk meets four conflicts and is confirmed. -/
theorem conflicts_resolved_contested :
    let commit : Packet := ⟨3, 1, false, false, .transaction .commit ⟨9, []⟩⟩
    let after := (consume Replica.applier commit).perform contested
    contested.channel.state = .active ∧ commit.key ≤ contested.channel.lastReceived + 1 ∧
      contested.channel.lastReceived + 1 < 2 ^ 64 ∧ after.1 = .ok 3 ∧ after.2.channel.state = .active ∧
      after.2.channel.stats.settled = contested.channel.stats.settled + 4 ∧
      after.2.channel.stats.outcomes =
        { TargetStats.zero with overwritten := 1, ignored := 2, reported := 1 } := by
  intro commit after
  obtain ⟨r', outcomes, hdone, hactive, -, -, hsettled⟩ :=
    conflicts_resolved contested commit rfl (Nat.le_refl _) (by decide)
  have hafter : after = (.ok r'.channel.lastConfirmed, r') := hdone
  have hkey : after.1 = .ok 3 := by decide +kernel
  have hcounts : after.2.channel.stats.outcomes =
      { TargetStats.zero with overwritten := 1, ignored := 2, reported := 1 } := by decide +kernel
  have hdue : (contested.channel.dueEffects commit).length = 4 := by decide +kernel
  rw [hdue] at hsettled
  refine ⟨rfl, Nat.le_refl _, by decide, hkey, ?_, ?_, hcounts⟩
  · rw [hafter]
    exact hactive
  · rw [hafter]
    exact hsettled

end Receiver

end GroupReplication
