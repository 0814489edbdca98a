/-
What a target has of its source's packets at any point of a delivery, however often the link is cut: its
copy is what consuming the packets from its last restart up to its confirmed key makes of what that
restart left. A restart leaves no entries, but the types that were known.
-/
import GroupReplication.Proofs.Delivery.Run
import GroupReplication.Proofs.Delivery.Ship

namespace GroupReplication

open Packet GroupReplication.Action

/-! ## Packets between two keys -/

namespace Packet

variable {first : Nat} {ps : List Packet}

/-- The packet with this key, if there is one among `ps`. -/
def under (ps : List Packet) (key : Nat) : Packet :=
  (ps.find? (·.key = key)).getD ⟨key, 0, false, false, .batch []⟩

theorem key_under (ps : List Packet) (key : Nat) : (under ps key).key = key := by
  unfold under
  cases hfind : ps.find? (·.key = key) with
  | none => rfl
  | some p => simpa using List.find?_some hfind

theorem under_of_mem (h : KeyedFrom first ps) {p : Packet} (hp : p ∈ ps) : p = under ps p.key := by
  induction ps generalizing first with
  | nil => cases hp
  | cons q ps ih =>
    obtain ⟨hq, hps⟩ := h
    rcases List.mem_cons.1 hp with rfl | hp
    · simp [under]
    · have hlater := (hps.bounds hp).1
      have hother : q.key ≠ p.key := by omega
      rw [under, List.find?_cons_of_neg (by simpa using hother)]
      exact ih hps hp

/-- The packets with keys from `start` up to `last`. -/
def between (ps : List Packet) (start last : Nat) : List Packet :=
  ps.filter fun p => start ≤ p.key ∧ p.key ≤ last

theorem filter_key_le (h : KeyedFrom first ps) (last : Nat) :
    ps.filter (·.key ≤ last) = ps.take (last + 1 - first) := by
  induction ps generalizing first with
  | nil => simp
  | cons p ps ih =>
    obtain ⟨hp, hps⟩ := h
    by_cases hle : first ≤ last
    · rw [List.filter_cons_of_pos (by simp [hp, hle]), ih hps,
        show last + 1 - first = last + 1 - (first + 1) + 1 by omega, List.take_succ_cons]
    · have hnone : (p :: ps).filter (·.key ≤ last) = [] := List.filter_eq_nil_iff.2 fun q hq => by
        have hbound : first ≤ q.key := by
          rcases List.mem_cons.1 hq with rfl | hq
          · omega
          · have := (hps.bounds hq).1
            omega
        simp
        omega
      rw [hnone, show last + 1 - first = 0 by omega, List.take_zero]

/-- Every key from `start` up to `last` occurs once, in order. -/
theorem keys_between (h : KeyedFrom first ps) {start last : Nat} (hstart : start ≤ last → first ≤ start)
    (hlast : last < first + ps.length) :
    (between ps start last).map (·.key) = List.range' start (last + 1 - start) := by
  by_cases hle : start ≤ last
  · have hdrop := h.drop (start - first)
    rw [show first + (start - first) = start by have := hstart hle; omega] at hdrop
    have hbetween : between ps start last = (ps.drop (start - first)).take (last + 1 - start) := by
      rw [← filter_key_le hdrop, ← h.filter_le, List.filter_filter]
      exact List.filter_congr fun p _ => by simp [Bool.and_comm]
    have hlength : ((ps.drop (start - first)).take (last + 1 - start)).length = last + 1 - start := by
      rw [List.length_take, List.length_drop]
      have := hstart hle
      omega
    rw [hbetween, keyedFrom_iff.1 (hdrop.take _), hlength]
  · have hnone : between ps start last = [] := List.filter_eq_nil_iff.2 fun p _ => by
      simp
      omega
    rw [hnone, show last + 1 - start = 0 by omega]
    rfl

/-- What the keys say of the packets that they stand for. -/
theorem upTo_under (h : KeyedFrom first ps) {start last : Nat} (hstart : start ≤ last → first ≤ start)
    (hlast : last < first + ps.length) : upTo (under ps) start last = between ps start last := by
  rw [upTo, ← keys_between h hstart hlast, List.map_map]
  refine (List.map_congr_left fun p hp => ?_).trans (List.map_id _)
  exact (under_of_mem h (List.mem_filter.1 hp).1).symm

end Packet

namespace Delivery

/-! ## What every event preserves -/

/-- The ends fit, and if `touch` is true they are in touch. -/
def Together (site : Site) (history : List Packet) (touch : Prop) (d : Delivery (Wire Replica)) :
    Prop :=
  ∃ a, Accord site history d a ∧ (touch → InTouch site d a)

section Together

variable {site : Site} {history : List Packet} {d : Delivery (Wire Replica)} {touch : Prop}

theorem InAccord.together (h : InAccord site history d) : Together site history touch d := by
  obtain ⟨a, haccord, hin⟩ := h
  exact ⟨a, haccord, fun _ => hin⟩

theorem Together.apart (h : Together site history touch d) : Together site history False d := by
  obtain ⟨a, haccord, -⟩ := h
  exact ⟨a, haccord, False.elim⟩

theorem Together.mono (h : Together site history touch d) {touch' : Prop} (himp : touch' → touch) :
    Together site history touch' d := by
  obtain ⟨a, haccord, hin⟩ := h
  exact ⟨a, haccord, hin ∘ himp⟩

theorem Together.standsAt (h : Together site history touch d) :
    ∃ next key, StandsAt site history next key touch d := by
  obtain ⟨a, haccord, hin⟩ := h
  exact ⟨_, _, a, haccord, rfl, rfl, hin⟩

theorem StandsAt.together {next key : Nat} (h : StandsAt site history next key touch d) :
    Together site history touch d := by
  obtain ⟨a, haccord, -, -, hin⟩ := h
  exact ⟨a, haccord, hin⟩

/-- The state in which an operation ends. -/
theorem together_of_ensures {α : Type} {act : Action (Delivery (Wire Replica)) α}
    {P : Delivery (Wire Replica) → Prop} {Q : α → Delivery (Wire Replica) → Prop}
    (h : Ensures P act Q (fun d => ∃ a, Accord site history d a)) (hd : P d)
    (hQ : ∀ a d, Q a d → Together site history touch d) :
    Together site history (touch ∧ ((discard act).perform d).1 = .ok ()) ((discard act).perform d).2 := by
  rw [perform_discard]
  rcases h d hd with ⟨a, d', hok, hq⟩ | ⟨e, d', he, a, haccord⟩
  · rw [hok]
    exact (hQ a d' hq).mono And.left
  · rw [he]
    exact ⟨a, haccord, fun hfalse => by cases hfalse.2⟩

/-- An operation on the backlog that is none of the target's handshakes or polls. -/
theorem Together.operated (h : Together site history touch d) {op : Operation}
    (hspares : (Event.operate op).Spares site.target) (hkeys : (op.after d.backlog).nextKey < 2 ^ 64)
    (hlisted : ∀ p, Turn.appended? ⟨d.backlog, op⟩ = some p → p = site.log p.key) :
    Together site (historyAfter history ⟨d.backlog, op⟩) touch
      { d with backlog := op.after d.backlog } := by
  obtain ⟨a, haccord, hin⟩ := h
  have hstart : Turn.start? site.target ⟨d.backlog, op⟩ = none := by
    cases op with
    | handshake name request => exact if_neg hspares
    | _ => rfl
  have hbatch : (Turn.batch? site.target ⟨d.backlog, op⟩).getD [] = [] := by
    cases op with
    | poll name force => rw [show Turn.batch? site.target ⟨d.backlog, .poll name force⟩ = none from
        if_neg hspares]; rfl
    | _ => rfl
  exact ⟨_, haccord.operated op hkeys hlisted (.inl hstart),
    fun htouch => haccord.inTouch_operated (hin htouch) hstart hbatch⟩

theorem Together.setSevered (h : Together site history touch d) (severed : Bool) :
    Together site history touch { d with link := d.link.setSevered severed } := by
  obtain ⟨a, haccord, hin⟩ := h
  have hsame : d.link.Rests site.log site.conflicts site.source site.initial a.channel?
      (d.link.setSevered severed) a.channel? := haccord.mirrors.same rfl rfl rfl
  exact ⟨_, haccord.rests hsame, hin⟩

end Together

/-- Every event keeps the ends together. They get in touch when the worker establishes its channel, and
stay so as long as everything succeeds. -/
theorem together_after {site : Site} {history : List Packet} {touch : Prop} {c : Course Replica}
    (h : Together site history touch c.delivery) {e : Event} (hspares : e.Spares site.target)
    (hkeys : (c.after Replica.applier e).delivery.backlog.nextKey < 2 ^ 64)
    (hlisted : ∀ p, e.appended? c.delivery.backlog = some p → p = site.log p.key) :
    Together site (history ++ (e.appended? c.delivery.backlog).toList)
      ((touch ∨ e = .establish) ∧ c.EndsWell Replica.applier e) (c.after Replica.applier e).delivery := by
  have hquiet : e.appended? c.delivery.backlog = none →
      Together site history ((touch ∨ e = .establish) ∧ c.EndsWell Replica.applier e)
        (c.after Replica.applier e).delivery →
      Together site (history ++ (e.appended? c.delivery.backlog).toList)
        ((touch ∨ e = .establish) ∧ c.EndsWell Replica.applier e)
        (c.after Replica.applier e).delivery := by
    intro hnone hsame
    rwa [hnone, Option.toList_none, List.append_nil]
  obtain ⟨next, key, hstands⟩ := h.standsAt
  have hestablished : ∀ {act : Action (Delivery (Wire Replica)) Unit} {touch' : Prop},
      Ensures (fun d => ∃ a, Accord site history d a) act (fun _ => InAccord site history)
        (InAccord site history) →
      Together site history touch' (act.perform c.delivery).2 := by
    intro act touch' hensures
    obtain ⟨a, haccord, -⟩ := h
    rcases hensures c.delivery ⟨a, haccord⟩ with ⟨_, d', hok, hin⟩ | ⟨e, d', he, hin⟩
    · rw [hok]
      exact hin.together
    · rw [he]
      exact hin.together
  cases e with
  | operate op =>
    exact (h.operated hspares hkeys hlisted).mono fun hand => hand.1.resolve_right fun heq => by cases heq
  | establish => exact hquiet rfl (hestablished ensures_establish)
  | step force =>
    refine hquiet rfl ((together_of_ensures (ensures_step force) hstands fun _ _ hq =>
      hq.1.together).mono fun hand => ⟨hand.1.resolve_right (fun heq => by cases heq), hand.2⟩)
  | deliver =>
    refine hquiet rfl ((together_of_ensures ensures_deliverPending hstands fun _ _ hq =>
      hq.1.choose_spec.together).mono fun hand =>
        ⟨hand.1.resolve_right (fun heq => by cases heq), hand.2⟩)
  | disconnect => exact hquiet rfl (hestablished ensures_hangUp)
  | sever =>
    exact hquiet rfl ((h.setSevered true).mono fun hand =>
      hand.1.resolve_right fun heq => by cases heq)
  | heal =>
    exact hquiet rfl ((h.setSevered false).mono fun hand =>
      hand.1.resolve_right fun heq => by cases heq)

/-- What every event keeps holds after any run of them. -/
theorem together_run {site : Site} {kept : List Packet} {touch : Prop} {c : Course Replica}
    (h : Together site (kept ++ c.logged) touch c.delivery) (events : List Event)
    (hspares : ∀ e ∈ events, e.Spares site.target)
    (hkeys : (c.run Replica.applier events).delivery.backlog.nextKey < 2 ^ 64)
    (hlisted : ∀ p ∈ (c.run Replica.applier events).logged, p = site.log p.key) :
    Together site (kept ++ (c.run Replica.applier events).logged)
      (touch ∧ c.AllEndWell Replica.applier events) (c.run Replica.applier events).delivery := by
  induction events generalizing c touch with
  | nil => exact h.mono And.left
  | cons e events ih =>
    have hkey := Nat.lt_of_le_of_lt ((c.after Replica.applier e).nextKey_le_run _ events) hkeys
    have hnew : ∀ p, e.appended? c.delivery.backlog = some p → p = site.log p.key := fun p hp =>
      hlisted p (((c.after Replica.applier e).logged_run _ events).subset
        (List.mem_append_right _ (Option.mem_toList.2 hp)))
    have hafter := together_after h (hspares e (List.mem_cons_self ..)) hkey hnew
    rw [List.append_assoc] at hafter
    exact (ih hafter (fun e he => hspares e (List.mem_cons_of_mem _ he)) hkeys hlisted).mono
      fun hand => ⟨⟨.inl hand.1, hand.2.1⟩, hand.2.2⟩

/-- A worker that establishes its channel gets the ends in touch, until something fails. -/
theorem together_established {site : Site} {kept : List Packet} {c : Course Replica}
    (h : Together site (kept ++ c.logged) False c.delivery) (more : List Event)
    (hspares : ∀ e ∈ more, e.Spares site.target)
    (hkeys : (c.run Replica.applier (.establish :: more)).delivery.backlog.nextKey < 2 ^ 64)
    (hlisted : ∀ p ∈ (c.run Replica.applier (.establish :: more)).logged, p = site.log p.key)
    (hwell : c.AllEndWell Replica.applier (.establish :: more)) :
    Together site (kept ++ (c.run Replica.applier (.establish :: more)).logged) True
      (c.run Replica.applier (.establish :: more)).delivery := by
  have hkey := Nat.lt_of_le_of_lt ((c.after Replica.applier .establish).nextKey_le_run _ more) hkeys
  have hestablished := together_after h (e := .establish) trivial hkey fun _ hp => by cases hp
  rw [List.append_assoc] at hestablished
  exact (together_run hestablished more hspares hkeys hlisted).mono fun _ =>
    ⟨⟨.inr rfl, hwell.1⟩, hwell.2⟩

/-- Delivering all that waits leaves the target with all that was logged, when the ends were in touch. -/
theorem received_after_deliver {site : Site} {history : List Packet} {c : Course Replica}
    (h : Together site history True c.delivery) (hwell : c.EndsWell Replica.applier .deliver) :
    ∃ a, Accord site history (c.after Replica.applier .deliver).delivery a ∧
      (site.channel a (c.after Replica.applier .deliver).delivery.link).lastReceived + 1
        = (c.after Replica.applier .deliver).delivery.backlog.nextKey := by
  obtain ⟨next, key, hstands⟩ := h.standsAt
  have hperform := perform_discard (deliverPending (.wire Replica.applier)) c.delivery
  have hafter : (c.after Replica.applier .deliver).delivery
      = ((discard (deliverPending (.wire Replica.applier))).perform c.delivery).2 := rfl
  rw [Course.EndsWell, Event.act] at hwell
  rw [hafter]
  rcases ensures_deliverPending c.delivery hstands with ⟨n, d, hok, -, hmeets⟩ | ⟨e, d, he, -⟩
  · rw [hperform, hok]
    obtain ⟨a, haccord, hnext, hkey, -, hlast⟩ := hmeets trivial
    exact ⟨a, haccord, hlast.trans (hnext.trans hkey.symm)⟩
  · rw [hperform, he] at hwell
    cases hwell

/-! ## From an empty copy on -/

/-- The channel of a source at the target, which is fresh as long as there is none. -/
def Course.channel {ρ : Type} (source : String) (c : Course ρ) : TargetChannel :=
  c.delivery.link.channel source (c.delivery.link.ends.group.channelOf? source)

/-- The copy that the target has. -/
def Course.replica {ρ : Type} (c : Course ρ) : ρ := c.delivery.link.ends.group.replica

section Replication

variable (membership : Membership) (settings : BacklogSettings) (log : PacketLog) (source target : String)
  (worker : DeliverySettings) (members : Membership) (policy : AttachPolicy)
  (conflicts : ConflictSettings) (requireTypes : Bool) (cuts : List Bool)

/-- A worker between the backlog over a log and a target with an empty copy. -/
def Course.toReplica : Course Replica :=
  .start (.ofLog membership settings log) (.new source target worker) cuts
    (.new members policy conflicts (.empty requireTypes))

end Replication

variable {membership : Membership} {settings : BacklogSettings} {log : PacketLog}
  {source target : String} {worker : DeliverySettings} {members : Membership} {policy : AttachPolicy}
  {conflicts : ConflictSettings} {requireTypes : Bool} {cuts : List Bool}

theorem together_start {site : Site} {kept : List Packet} (hholds : log.Holds kept)
    (hfits : ∀ p ∈ kept, p.Fits) (hlisted : ∀ p ∈ kept, p = site.log p.key)
    (hkeys : log.nextKey < 2 ^ 64) (hinitial : site.initial = .empty requireTypes) :
    Together site kept False
      (Course.toReplica membership site.settings log site.source site.target worker members policy
        site.conflicts requireTypes cuts).delivery := by
  have hcoherent := Run.fits_start membership site.settings hholds
  rw [Run.Fits, show Turn.appended _ = [] from rfl, List.append_nil] at hcoherent
  have hnext : 1 ≤ log.nextKey := by
    rw [PacketLog.nextKey]
    cases log.lastAppended <;> simp
  refine ⟨⟨(Turn.startKey? · []), (Turn.delivered · []), none⟩, ?_, False.elim⟩
  refine ⟨rfl, rfl, hcoherent, fun p hp => ⟨hlisted p hp, hfits p hp⟩, hkeys, ?_, hnext,
    fun hactive => (by cases hactive), fun _ _ heq => by cases heq⟩
  rw [hinitial]
  exact Wire.mirrors_new cuts members policy

/-- The site of a run that logs `record`. -/
def siteOf (settings : BacklogSettings) (conflicts : ConflictSettings) (source target : String)
    (requireTypes : Bool) (record : List Packet) (room : 1 ≤ settings.maxBatchSize)
    (clustered : conflicts.targetKind = .clustered) : Site :=
  ⟨settings, conflicts, source, target, .empty requireTypes, under record, room, clustered,
    key_under record⟩

/-- What a log held at the start of a run and what was logged in it have consecutive keys. -/
theorem keyedFrom_record {kept : List Packet} (hholds : log.Holds kept)
    (hroom : 1 ≤ settings.maxBatchSize) (events : List Event) :
    let c := (Course.toReplica membership settings log source target worker members policy conflicts
      requireTypes cuts).run Replica.applier events
    c.delivery.backlog.nextKey < 2 ^ 64 →
      KeyedFrom (c.delivery.backlog.nextKey - (kept ++ c.logged).length) (kept ++ c.logged) := by
  intro c hkeys
  obtain ⟨ops, hb, hturns⟩ := Course.backlog_run Replica.applier (.ofLog membership settings log)
    (.new source target worker) cuts (.new members policy conflicts (.empty requireTypes)) events
  have hcoherent := (Run.fits_start membership settings hholds).steps hroom ops (hb ▸ hkeys)
  have hkeyed := hcoherent.logged.keyed
  have hb : ((Run.start (.ofLog membership settings log)).steps ops).backlog = c.delivery.backlog := hb
  have hturns : Turn.appended ((Run.start (.ofLog membership settings log)).steps ops).turns = c.logged :=
    hturns
  rwa [hb, hturns] at hkeyed

/-- At every point of a run the ends fit. -/
theorem together_toReplica {kept : List Packet} (hholds : log.Holds kept) (hfits : ∀ p ∈ kept, p.Fits)
    (hroom : 1 ≤ settings.maxBatchSize) (hkind : conflicts.targetKind = .clustered)
    (past rest : List Event) (hspares : ∀ e ∈ past ++ rest, e.Spares target) :
    let first := Course.toReplica membership settings log source target worker members policy conflicts
      requireTypes cuts
    let c := first.run Replica.applier (past ++ rest)
    c.delivery.backlog.nextKey < 2 ^ 64 →
      Together (siteOf settings conflicts source target requireTypes (kept ++ c.logged) hroom hkind)
        (kept ++ (first.run Replica.applier past).logged) False
        (first.run Replica.applier past).delivery := by
  intro first c hkeys
  have hlisted : ∀ p ∈ kept ++ c.logged, p = under (kept ++ c.logged) p.key := fun p hp =>
    under_of_mem (keyedFrom_record hholds hroom (past ++ rest) hkeys) hp
  have hrest : c = (first.run Replica.applier past).run Replica.applier rest :=
    first.run_append Replica.applier past rest
  have hstart : Together
      (siteOf settings conflicts source target requireTypes (kept ++ c.logged) hroom hkind)
      (kept ++ first.logged) False first.delivery := by
    rw [show first.logged = [] from rfl, List.append_nil]
    exact together_start hholds hfits (fun p hp => hlisted p (List.mem_append_left _ hp))
      (Nat.lt_of_le_of_lt (first.nextKey_le_run Replica.applier _) hkeys) rfl
  refine (together_run hstart past (fun e he => hspares e (List.mem_append_left _ he)) ?_
    fun p hp => hlisted p (List.mem_append_right _ ?_)).apart
  · rw [hrest] at hkeys
    exact Nat.lt_of_le_of_lt (Course.nextKey_le_run Replica.applier _ rest) hkeys
  · rw [hrest]
    exact (Course.logged_run Replica.applier _ rest).subset hp

section Accord

variable {site : Site} {history : List Packet} {c : Course Replica} {a : Account}

/-- The target's channel is the one that is in accord with its source. -/
theorem channel_of_accord (h : Accord site history c.delivery a) :
    c.channel site.source = site.channel a c.delivery.link := by
  rw [Course.channel, h.mirrors.serves.channelOf?]
  rfl

/-- The copy is what consuming the packets from the last restart up to the confirmed key makes of what
that restart left. -/
theorem consumed_of_accord (h : Accord site history c.delivery a) (hlog : site.log = under history) :
    let start := c.delivery.link.startKey
    let last := (c.channel site.source).lastConfirmed
    (between history start last).map (·.key) = List.range' start (last + 1 - start) ∧
      ((c.channel site.source).staged, c.replica) = consumed Replica.applier site.conflicts
        (between history start last) (c.delivery.link.base site.initial) := by
  intro start last
  have hchannel := channel_of_accord h
  have hkeyed := h.coherent.logged.keyed
  have hlength := h.coherent.logged.length_le
  have hlast : last = (site.channel a c.delivery.link).lastConfirmed :=
    congrArg (·.lastConfirmed) hchannel
  have hissued : last < c.delivery.backlog.nextKey := hlast ▸ h.issued
  have hstart : start ≤ last → c.delivery.backlog.nextKey - history.length ≤ start := by
    intro hle
    cases hrestart : c.delivery.link.restart? with
    | none =>
      have hzero : last = 0 := hlast.trans (h.mirrors.untouched hrestart).2.1
      have hone : start = 1 := by
        show c.delivery.link.startKey = 1
        rw [Wire.startKey, hrestart]
        rfl
      omega
    | some restart =>
      have hkept := h.kept restart.1 restart.2 hrestart
      show _ ≤ c.delivery.link.startKey
      rw [Wire.startKey, hrestart]
      exact hkept
  refine ⟨keys_between hkeyed hstart (by omega), ?_⟩
  have hresult := h.mirrors.consumes.result
  rw [hlog, show c.delivery.link.channel site.source a.channel? = c.channel site.source from
    hchannel.symm, upTo_under hkeyed hstart (by omega)] at hresult
  exact hresult

/-- A restart leaves no entries, and requires types if that was required before. -/
theorem base_of_accord (h : Accord site history c.delivery a) {requireTypes : Bool}
    (hinitial : site.initial = .empty requireTypes) :
    let base := c.delivery.link.base site.initial
    base.entries = [] ∧ base.locks = [] ∧ base.requireTypes = requireTypes := by
  intro base
  show (c.delivery.link.base site.initial).entries = [] ∧ (c.delivery.link.base site.initial).locks = [] ∧
    (c.delivery.link.base site.initial).requireTypes = requireTypes
  rw [Wire.base, hinitial]
  cases hrestart : c.delivery.link.restart? with
  | none => exact ⟨rfl, rfl, rfl⟩
  | some restart =>
    have hcleared := h.mirrors.cleared restart.1 restart.2 hrestart
    rw [hinitial] at hcleared
    exact hcleared

/-- Without an open bulk all that was received is confirmed. -/
theorem lastConfirmed_of_accord (h : Accord site history c.delivery a)
    (hbulk : (c.channel site.source).bulk = none) :
    (c.channel site.source).lastConfirmed = (site.channel a c.delivery.link).lastReceived := by
  have hchannel := channel_of_accord h
  rw [hchannel] at hbulk ⊢
  cases h.mirrors.received with
  | all _ hlast => exact hlast.symm
  | holdingBack hheld =>
    have hheld : (site.channel a c.delivery.link).bulk = some _ := hheld
    rw [hbulk] at hheld
    cases hheld

end Accord

/-- Over any log that came about by its own operations, and in any run in which the link may be cut
before any frame: what the target has staged and its copy are what consuming the packets from its last
restart's key up to its confirmed key, every key once and in order, makes of the copy that this restart
left, which has no entries. If types need not be introduced, this is what they make of an empty copy.
When the worker established its channel, everything succeeded from there on, and all that waits was
delivered, then the target without an open bulk has confirmed the last key of all. -/
theorem replica_mirrors_log (hlog : log.Reachable) (hopen : log.isClosed = false)
    (hroom : 1 ≤ settings.maxBatchSize) (hkind : conflicts.targetKind = .clustered)
    (events : List Event) (hspares : ∀ e ∈ events, e.Spares target)
    (hkeys : ((Course.toReplica membership settings log source target worker members policy conflicts
      requireTypes cuts).run Replica.applier events).delivery.backlog.nextKey < 2 ^ 64) :
    let first := Course.toReplica membership settings log source target worker members policy conflicts
      requireTypes cuts
    let c := first.run Replica.applier events
    let start := c.delivery.link.startKey
    let last := (c.channel source).lastConfirmed
    let due := between (log.packets ++ c.logged) start last
    let base := c.delivery.link.base (.empty requireTypes)
    due.map (·.key) = List.range' start (last + 1 - start) ∧
      ((c.channel source).staged, c.replica) = consumed Replica.applier conflicts due base ∧
      base.entries = [] ∧ base.locks = [] ∧
      (requireTypes = false →
        c.replica.entries = (consumed Replica.applier conflicts due (.empty false)).2.entries) ∧
      ∀ past more, events = past ++ .establish :: (more ++ [.deliver]) →
        (first.run Replica.applier past).AllEndWell Replica.applier
          (.establish :: (more ++ [.deliver])) →
        (c.channel source).bulk = none → last + 1 = c.delivery.backlog.nextKey := by
  intro first c start last due base
  obtain ⟨kept, hholds, hfits⟩ := hlog.holds
  rw [← List.append_nil events] at hspares hkeys
  have hend := together_toReplica hholds hfits hroom hkind events [] hspares hkeys
  rw [List.append_nil] at hspares hkeys hend
  obtain ⟨a, haccord, -⟩ := hend
  have hbase : base.entries = [] ∧ base.locks = [] ∧ base.requireTypes = requireTypes :=
    base_of_accord haccord rfl
  obtain ⟨hentries, hlocks, hrequire⟩ := hbase
  have hconsumed := consumed_of_accord haccord rfl
  rw [← hholds.packets hopen] at hconsumed
  have hdue : due.map (·.key) = List.range' start (last + 1 - start) := hconsumed.1
  have hcopy : ((c.channel source).staged, c.replica) = consumed Replica.applier conflicts due base :=
    hconsumed.2
  refine ⟨hdue, hcopy, hentries, hlocks, fun hfree => ?_, fun past more hevents hwell hbulk => ?_⟩
  · -- what the restart left differs from an empty copy in its types only
    have halike : (Replica.empty false).Alike base := by
      refine ⟨rfl, base.types, base.indexes, ?_⟩
      rw [hfree] at hrequire
      generalize base = r at hentries hlocks hrequire
      cases r
      cases hentries
      cases hlocks
      cases hrequire
      rfl
    obtain ⟨-, -, types, indexes, hsame⟩ := halike.consumed hkind due
    rw [show c.replica = _ from congrArg Prod.snd hcopy, hsame]
    rfl
  · have hsplit : events = past ++ ((.establish :: more) ++ [.deliver]) := hevents
    have hstage : c = ((first.run Replica.applier past).run Replica.applier (.establish :: more)).after
        Replica.applier .deliver := by
      show first.run Replica.applier events = _
      rw [hsplit, Course.run_append, Course.run_append]
      rfl
    rw [← List.cons_append, Course.allEndWell_append] at hwell
    have hspares' : ∀ e ∈ past ++ ((.establish :: more) ++ [.deliver]), e.Spares target := hsplit ▸ hspares
    have hkeys' := hkeys
    rw [hsplit] at hkeys'
    have hpast := together_toReplica hholds hfits hroom hkind past ((.establish :: more) ++ [.deliver])
      hspares' hkeys'
    rw [← hsplit] at hpast
    have hkeys'' : c.delivery.backlog.nextKey < 2 ^ 64 := hkeys
    rw [hstage] at hkeys''
    have hbefore := together_established hpast more (fun e he => hspares' e (by simp [he]))
      (Nat.lt_of_le_of_lt (Course.nextKey_le_run Replica.applier _ [.deliver]) hkeys'')
      (fun p hp => under_of_mem (keyedFrom_record hholds hroom events hkeys)
        (List.mem_append_right _ ?_)) hwell.1
    · obtain ⟨a, haccord, hreceived⟩ := received_after_deliver hbefore hwell.2.1
      rw [← hstage] at haccord hreceived
      have hconfirmed := lastConfirmed_of_accord haccord hbulk
      show (c.channel source).lastConfirmed + 1 = _
      exact (congrArg (· + 1) hconfirmed).trans hreceived
    · show p ∈ c.logged
      rw [hstage]
      exact (Course.logged_run Replica.applier _ [.deliver]).subset hp

/-- A worker of a new backlog, with an empty copy on the other side of its link. -/
def Course.supplied (requireTypes : Bool) : Course Replica :=
  .toReplica (.openTo "orders") .standard (.memory (.empty "orders" none)) "primary" "backup" .standard
    (.openTo "orders") .singleActiveSource .standard requireTypes []

/-- An order is added under this uid. -/
def Event.order (uid : String) : Event :=
  .operate (.add (.entry (.write ⟨"Order", uid, 1, [], none⟩)) false false)

/-- The order that is added while the channel stands gets there. -/
theorem replica_mirrors_log_shipped :
    let c := (Course.supplied false).run Replica.applier [.establish, .order "a", .deliver]
    (c.channel "primary").lastConfirmed + 1 = c.delivery.backlog.nextKey ∧
      c.replica.entries = (consumed Replica.applier .standard
        (between c.logged c.delivery.link.startKey (c.channel "primary").lastConfirmed)
        (.empty false)).2.entries := by
  have hkeys : ((Course.supplied false).run Replica.applier
      [.establish, .order "a", .deliver]).delivery.backlog.nextKey < 2 ^ 64 := by decide +kernel
  have hwell : (Course.supplied false).AllEndWell Replica.applier
      [.establish, .order "a", .deliver] :=
    ⟨eq_ok_of_toOption (by decide +kernel), eq_ok_of_toOption (by decide +kernel),
      eq_ok_of_toOption (by decide +kernel), trivial⟩
  have hbulk : (((Course.supplied false).run Replica.applier
      [.establish, .order "a", .deliver]).channel "primary").bulk = none := by decide +kernel
  unfold Course.supplied at hkeys hwell hbulk ⊢
  obtain ⟨-, -, -, -, hentries, hall⟩ := replica_mirrors_log (.memory "orders" none) rfl (by decide) rfl
    [.establish, .order "a", .deliver] (by simp [Event.order, Event.Spares]) hkeys
  rw [show (PacketLog.memory (.empty "orders" none)).packets = [] from rfl, List.nil_append] at hentries
  exact ⟨hall [] [.order "a"] rfl hwell hbulk, hentries rfl⟩

/-- What happens around a restart: the type of the orders is introduced, and when the channel is back
after it was detached, the log begins behind that. -/
def Course.reintroduced : List Event :=
  [.establish, .operate (.add (.typeIntroduce ⟨"Order", none, []⟩) false false), .deliver,
    .operate (.handshake "auditor" ⟨true, 0, none⟩), .operate (.detach "backup"),
    .operate (.poll "auditor" true), .operate (.confirm "auditor" 1), .order "a",
    .operate (.poll "auditor" true), .operate (.confirm "auditor" 2), .operate (.compact 10),
    .establish, .order "b", .deliver]

/-- The restart at key 3 leaves the type, so the order goes in that an empty copy would refuse. -/
theorem restart_keeps_types :
    let c := (Course.supplied true).run Replica.applier Course.reintroduced
    c.delivery.link.startKey = 3 ∧ (c.channel "primary").lastConfirmed = 3 ∧
      c.replica.entries.map (·.1) = ["b"] ∧
      (consumed Replica.applier .standard (between c.logged 3 3) (.empty true)).2.entries = [] := by
  decide +kernel

end Delivery

end GroupReplication
