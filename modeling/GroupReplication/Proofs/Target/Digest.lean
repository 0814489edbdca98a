/-
What taking packets in does to a target, whatever the packets are and whatever fails. The channel stays
in its state and takes back nothing it confirmed, and the copy only changes by what is applied to it.
-/
import GroupReplication.Proofs.Target.Consume

namespace GroupReplication

open GroupReplication.Action

/-! ## Copies -/

/-- The copies that applying and overwriting can make of one. -/
inductive Applier.Works {ρ : Type} (A : Applier ρ) (r : ρ) : ρ → Prop where
  | refl : Works A r r
  | apply {r' : ρ} (h : Works A r r') (effect : Effect) (transient : Bool) :
      Works A r (A.apply effect transient r').2
  | overwrite {r' : ρ} (h : Works A r r') (op : EntryOperation) :
      Works A r (A.overwrite op r').2

/-- Settling an effect applies it, and may then overwrite. -/
theorem Applier.Works.settle {ρ : Type} {A : Applier ρ} {r r' : ρ} (h : A.Works r r')
    (settings : ConflictSettings) (effect : Effect) (transient : Bool) :
    A.Works r (effect.settle A settings transient r').2 := by
  have hforce : ∀ {copy}, A.Works r copy → A.Works r (effect.force A copy).2 := fun h => by
    cases effect with
    | entry op => exact h.overwrite op
    | _ => exact h
  have happlied := h.apply effect transient
  unfold Effect.settle
  generalize A.apply effect transient r' = out at happlied
  obtain ⟨(conflict | text) | _, copy⟩ := out
  · have hforced := hforce happlied
    dsimp only
    cases settings.decide effect.kind conflict transient with
    | apply =>
      generalize effect.force A copy = out at hforced
      obtain ⟨_ | _, forced⟩ := out <;> exact hforced
    | _ => exact happlied
  · exact happlied
  · exact happlied

/-! ## Channels -/

/-- All keys of a channel fit the fields of a frame. -/
structure TargetChannel.Bounded (c : TargetChannel) : Prop where
  confirmed : c.lastConfirmed < 2 ^ 64
  received : c.lastReceived < 2 ^ 64
  held : ∀ bulk, c.bulk = some bulk → ∀ p ∈ bulk.packets, p.key < 2 ^ 64

namespace TargetChannel

/-- No handshake was completed or asked for anew, and what is confirmed stays confirmed. -/
structure Continues (c c' : TargetChannel) : Prop where
  pending : c'.firstHandshakePending = c.firstHandshakePending
  handshakes : c'.stats.handshakes = c.stats.handshakes
  confirms : c.lastConfirmed ≤ c'.lastConfirmed

namespace Bounded

variable {c : TargetChannel}

theorem fresh (group source : String) (settings : ConflictSettings) :
    (TargetChannel.fresh group source settings).Bounded :=
  ⟨Nat.two_pow_pos 64, Nat.two_pow_pos 64, fun _ hbulk => by cases hbulk⟩

theorem disconnected (h : c.Bounded) : c.disconnected.Bounded :=
  ⟨h.confirmed, h.confirmed, fun _ hbulk => by cases hbulk⟩

theorem confirmable (h : c.Bounded) : c.confirmable < 2 ^ 64 := by
  unfold TargetChannel.confirmable
  split
  · rename_i first hfirst
    obtain ⟨bulk, hbulk, hkey⟩ := Option.bind_eq_some_iff.1 hfirst
    obtain ⟨p, hp, rfl⟩ := Option.map_eq_some_iff.1 hkey
    have := h.held bulk hbulk p (List.mem_of_mem_head? hp)
    omega
  · exact h.received

theorem advance (h : c.Bounded) {key : Nat} (hkey : key < 2 ^ 64) :
    { c with confirmation := c.confirmation.advance key }.Bounded := by
  refine ⟨?_, h.received, h.held⟩
  show (c.confirmation.advance key).lastConfirmed < 2 ^ 64
  rw [Confirmation.lastConfirmed_advance]
  exact Nat.max_lt.2 ⟨h.confirmed, hkey⟩

theorem holdBack (h : c.Bounded) (id : UInt64) {p : Packet} (hp : p.key < 2 ^ 64) :
    (c.holdBack id p).Bounded := by
  refine ⟨h.confirmed, h.received, fun bulk hbulk q hq => ?_⟩
  cases hbulk
  rcases List.mem_append.1 hq with hq | hq
  · cases hheld : c.bulk with
    | none =>
      rw [hheld] at hq
      cases hq
    | some bulk =>
      rw [hheld] at hq
      exact h.held bulk hheld q hq
  · rw [List.mem_singleton.1 hq]
    exact hp

end Bounded

/-- Confirming one more key takes nothing back. -/
theorem advances_advance (key : Nat) (c : TargetChannel) :
    c.Advances { c with confirmation := c.confirmation.advance key } := by
  refine ⟨rfl, rfl, rfl, rfl, ?_⟩
  show _ ≤ (c.confirmation.advance key).lastConfirmed
  rw [Confirmation.lastConfirmed_advance]
  exact Nat.le_max_left ..

/-- The channel took packets in. If their keys fit, all its keys still do. -/
structure Digests (fits : Prop) (c c' : TargetChannel) : Prop extends
    c.Advances c', c.Continues c' where
  bounded : fits → c.Bounded → c'.Bounded

namespace Digests

variable {fits : Prop} {c c' c'' : TargetChannel}

theorem refl (c : TargetChannel) : c.Digests fits c := ⟨.refl c, rfl, rfl, fun _ => id⟩

theorem trans (h : c.Digests fits c') (h' : c'.Digests fits c'') : c.Digests fits c'' :=
  ⟨h.toAdvances.trans h'.toAdvances, h'.pending.trans h.pending, h'.handshakes.trans h.handshakes,
    fun hfits => h'.bounded hfits ∘ h.bounded hfits⟩

theorem advance {key : Nat} (hkey : fits → c.Bounded → key < 2 ^ 64) :
    c.Digests fits { c with confirmation := c.confirmation.advance key } :=
  ⟨advances_advance key c, rfl, rfl, fun hfits h => h.advance (hkey hfits h)⟩

end Digests

end TargetChannel

theorem TargetStats.handshakes_count (o : Outcome) (s : TargetStats) :
    (s.count o).handshakes = s.handshakes := by
  cases o <;> rfl

/-! ## Packets -/

namespace Receiver

variable {ρ : Type} {A : Applier ρ} {fits : Prop} {start : Receiver ρ}

/-- The target took packets in. -/
structure Digests (A : Applier ρ) (fits : Prop) (r r' : Receiver ρ) : Prop where
  channel : r.channel.Digests fits r'.channel
  works : ∀ copy, A.Works copy r.replica → A.Works copy r'.replica

theorem Digests.refl (r : Receiver ρ) : r.Digests A fits r := ⟨.refl _, fun _ => id⟩

theorem digests_onChannel {f : TargetChannel → TargetChannel}
    (hf : ∀ c, start.channel.Digests fits c → c.Digests fits (f c)) :
    Keeps (start.Digests A fits) (onChannel f) :=
  fun r h => ⟨h.channel.trans (hf r.channel h.channel), h.works⟩

theorem digests_carryOut (key : Nat) (transient : Bool) (effect : Effect) :
    Keeps (start.Digests A fits) (carryOut A key transient effect) := by
  intro r h
  have hsettled : ∀ copy, A.Works copy r.replica →
      A.Works copy (effect.settle A r.channel.settings transient r.replica).2 :=
    fun copy hwork => hwork.settle r.channel.settings effect transient
  rw [carryOut, perform_get_bind]
  generalize effect.settle A r.channel.settings transient r.replica = out at hsettled ⊢
  obtain ⟨outcome, replica⟩ := out
  rw [perform_set_bind]
  have hdone : start.Digests A fits { r with
      replica
      channel.stats := r.channel.stats.count outcome
      journal := r.journal ++ [⟨r.channel.group, r.channel.source, key, effect, outcome⟩] } :=
    ⟨h.channel.trans ⟨⟨rfl, rfl, rfl, rfl, Nat.le_refl _⟩, rfl, TargetStats.handshakes_count ..,
      fun _ h => ⟨h.confirmed, h.received, h.held⟩⟩, fun copy => hsettled copy ∘ h.works copy⟩
  split <;> exact hdone

theorem digests_carryOutAll (key : Nat) (transient : Bool) (effects : List Effect) :
    Keeps (start.Digests A fits) (carryOutAll A key transient effects) := by
  induction effects with
  | nil => exact .pure _
  | cons effect rest ih => exact .bind (digests_carryOut key transient effect) fun _ => ih

theorem digests_applyPacket (p : Packet) : Keeps (start.Digests A fits) (applyPacket A p) :=
  .bind .get fun _ => .bind (digests_onChannel fun _ _ => ⟨⟨rfl, rfl, rfl, rfl, Nat.le_refl _⟩, rfl, rfl,
    fun _ h => ⟨h.confirmed, h.received, h.held⟩⟩) fun _ => digests_carryOutAll _ _ _

theorem digests_applyPackets (ps : List Packet) :
    Keeps (start.Digests A fits) (applyPackets A ps) := by
  induction ps with
  | nil => exact .pure _
  | cons p ps ih => exact .bind (digests_applyPacket p) fun _ => ih

theorem digests_flushBulk : Keeps (start.Digests A fits) (flushBulk A) := by
  intro r h
  rw [flushBulk, perform_get_bind]
  cases hbulk : r.channel.bulk with
  | none => exact h
  | some bulk =>
    -- the keys are held by the channel as it was, which forgets them before the last is confirmed
    have hheld : fits → start.channel.Bounded → ∀ p ∈ bulk.packets, p.key < 2 ^ 64 :=
      fun hfits hbounded => (h.channel.bounded hfits hbounded).held bulk hbulk
    have hforgets : Keeps (start.Digests A fits) (onChannel fun c => { c with bulk := none }) :=
      digests_onChannel fun _ _ => ⟨⟨rfl, rfl, rfl, rfl, Nat.le_refl _⟩, rfl, rfl,
        fun _ h => ⟨h.confirmed, h.received, fun _ hnone => by cases hnone⟩⟩
    refine Keeps.bind hforgets (fun _ => .bind (digests_applyPackets _) fun _ => ?_) r h
    cases hlast : bulk.packets.getLast? with
    | none => exact .pure _
    | some last =>
      intro r h
      exact ⟨⟨h.channel.toAdvances.trans (TargetChannel.advances_advance last.key r.channel),
        h.channel.pending, h.channel.handshakes, fun hfits hbounded =>
          (h.channel.bounded hfits hbounded).advance
            (hheld hfits hbounded last (List.mem_of_getLast? hlast))⟩, h.works⟩

theorem digests_replay (p : Packet) : Keeps (start.Digests A fits) (replay A p) := by
  refine .bind (digests_onChannel fun _ _ => ⟨⟨rfl, rfl, rfl, rfl, Nat.le_refl _⟩, rfl, rfl,
    fun _ h => ⟨h.confirmed, h.received, h.held⟩⟩) fun _ => .bind .get fun _ => ?_
  exact Keeps.ite (digests_applyPacket p) (.pure _)

theorem digests_receiveNext {p : Packet} (hp : fits → p.key < 2 ^ 64) :
    Keeps (start.Digests A fits) (receiveNext A p) := by
  have hend : Keeps (start.Digests A fits) (do
      onChannel fun c => { c with lastReceived := p.key }
      onChannel fun c => { c with confirmation := c.confirmation.advance c.confirmable }) :=
    .bind (digests_onChannel fun _ _ => ⟨⟨rfl, rfl, rfl, rfl, Nat.le_refl _⟩, rfl, rfl,
      fun hfits h => ⟨h.confirmed, hp hfits, h.held⟩⟩) fun _ =>
        digests_onChannel fun _ _ => .advance fun _ h => h.confirmable
  refine .bind (digests_onChannel fun _ _ => ⟨⟨rfl, rfl, rfl, rfl, Nat.le_refl _⟩, rfl, rfl,
    fun _ h => ⟨h.confirmed, h.received, h.held⟩⟩) fun _ => ?_
  cases p.bulk with
  | none => exact .bind digests_flushBulk fun _ => .bind (digests_applyPacket p) fun _ => hend
  | some id =>
    have hheld : Keeps (start.Digests A fits) (do
        onChannel (·.holdBack id p)
        onChannel fun c => { c with lastReceived := p.key }
        onChannel fun c => { c with confirmation := c.confirmation.advance c.confirmable }) :=
      .bind (digests_onChannel fun _ _ => ⟨⟨rfl, rfl, rfl, rfl, Nat.le_refl _⟩, rfl, rfl,
        fun hfits h => h.holdBack id (hp hfits)⟩) fun _ => hend
    refine .bind .get fun _ => ?_
    exact Keeps.ite (.bind digests_flushBulk fun _ => hheld) hheld

theorem digests_consume {p : Packet} (hp : fits → p.key < 2 ^ 64) :
    Keeps (start.Digests A fits) (consume A p) := by
  have hanswer : Keeps (start.Digests A fits)
      (do return (← get).channel.lastConfirmed : Action (Receiver ρ) Nat) := .bind .get fun _ => .pure _
  refine .bind .get fun _ =>
    Keeps.ite (.throw_bind _ _) (Keeps.ite (.throw_bind _ _) (Keeps.ite (.throw_bind _ _) ?_))
  exact Keeps.ite (.bind (digests_replay p) fun _ => hanswer)
    (.bind (digests_receiveNext hp) fun _ => hanswer)

theorem digests_consumeBatch {ps : List Packet} (hps : fits → ∀ p ∈ ps, p.key < 2 ^ 64) :
    Keeps (start.Digests A fits) (consumeBatch A ps) := by
  induction ps with
  | nil => exact .bind .get fun _ => .pure _
  | cons p ps ih =>
    exact .bind (.discard (digests_consume fun hfits => hps hfits p (List.mem_cons_self ..))) fun _ =>
      ih fun hfits q hq => hps hfits q (List.mem_cons_of_mem _ hq)

/-- What is acknowledged is confirmed. -/
theorem consumeBatch_answer {ps : List Packet} {r r' : Receiver ρ} {key : Nat}
    (h : (consumeBatch A ps).perform r = (.ok key, r')) : key = r'.channel.lastConfirmed := by
  induction ps generalizing r with
  | nil =>
    cases h
    rfl
  | cons p ps ih =>
    rw [perform_consumeBatch_cons] at h
    split at h
    · exact ih h
    · cases h

end Receiver

end GroupReplication
