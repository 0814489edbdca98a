/-
What a channel has made of the packets that it applied, with how often an effect came out in each way.
A channel that holds back a bulk has that of the packets before it, and once it ends the bulk of all
that it received (`Lags`): what is held back is applied late, but in its place.
-/
import GroupReplication.Proofs.Target.Consume

namespace GroupReplication

open GroupReplication.Action Packet

/-- The counts of what became of effects, without those of the packets that came. -/
def TargetStats.outcomes (s : TargetStats) : TargetStats :=
  { s with received := 0, replayed := 0, handshakes := 0 }

theorem TargetStats.outcomes_count (o : Outcome) (s : TargetStats) :
    (s.count o).outcomes = s.outcomes.count o := by
  cases o <;> rfl

/-- What is staged, the copy, and the counts of what became of effects. -/
structure Takings (ρ : Type) where
  staged : Staged
  replica : ρ
  counts : TargetStats

section Tally

variable {ρ : Type}

/-- A copy and the counts after effects that were all settled. -/
def Effect.tallyAll (A : Applier ρ) (settings : ConflictSettings) (transient : Bool)
    (effects : List Effect) (w : ρ × TargetStats) : ρ × TargetStats :=
  effects.foldl (fun w effect => ((effect.settle A settings transient w.1).2,
    w.2.count (effect.settle A settings transient w.1).1)) w

/-- What applying a packet makes of the takings, when all its effects are settled. -/
def Packet.tally (A : Applier ρ) (settings : ConflictSettings) (p : Packet) (t : Takings ρ) :
    Takings ρ :=
  let effects := p.payload.effects t.staged
  let w := Effect.tallyAll A settings p.transient effects.1 (t.replica, t.counts)
  ⟨effects.2, w.1, w.2⟩

/-- What consuming a packet makes of the takings, when packets up to `base` were consumed before: a phase
of a transaction that comes again is passed over. -/
def Packet.takeIn (A : Applier ρ) (settings : ConflictSettings) (base : Nat) (p : Packet)
    (t : Takings ρ) : Takings ρ :=
  if p.key ≤ base ∧ p.payload.isPhase = true then t else p.tally A settings t

/-- The same for packets one after the other. -/
def Packet.takeInAll (A : Applier ρ) (settings : ConflictSettings) (base : Nat) (ps : List Packet)
    (t : Takings ρ) : Takings ρ :=
  ps.foldl (fun t p => p.takeIn A settings base t) t

variable {A : Applier ρ} {settings : ConflictSettings} {base : Nat} {p : Packet} {ps qs : List Packet}
  {t : Takings ρ}

theorem Packet.takeIn_of_lt (h : base < p.key) : p.takeIn A settings base t = p.tally A settings t :=
  if_neg fun hagain => absurd hagain.1 (Nat.not_le.2 h)

theorem Packet.takeInAll_append : takeInAll A settings base (ps ++ qs) t
    = takeInAll A settings base qs (takeInAll A settings base ps t) := List.foldl_append

theorem Packet.takeInAll_concat : takeInAll A settings base (ps ++ [p]) t
    = p.takeIn A settings base (takeInAll A settings base ps t) := List.foldl_append

namespace Receiver

variable {r : Receiver ρ}

def takings (r : Receiver ρ) : Takings ρ :=
  ⟨r.channel.staged, r.replica, r.channel.stats.outcomes⟩

/-- Where no effect can fail, all are carried out. -/
theorem carryOutAll_tallies (hfail : ¬ A.CanFail settings) (key : Nat) (transient : Bool)
    (effects : List Effect) {r : Receiver ρ} (hsettings : r.channel.settings = settings) :
    ∃ replica journal stats, (carryOutAll A key transient effects).perform r
        = (.ok (), r.withWork ⟨r.channel.staged, replica, journal⟩ stats) ∧
      (replica, stats.outcomes)
        = Effect.tallyAll A settings transient effects (r.replica, r.channel.stats.outcomes) := by
  induction effects generalizing r with
  | nil => exact ⟨r.replica, r.journal, r.channel.stats, rfl, rfl⟩
  | cons effect rest ih =>
    obtain ⟨⟨outcome, replica⟩, hsettle⟩ :
      ∃ out, effect.settle A r.channel.settings transient r.replica = out := ⟨_, rfl⟩
    have hsettle' : effect.settle A settings transient r.replica = (outcome, replica) :=
      hsettings ▸ hsettle
    have hsettled : outcome.failure? = none := by
      cases hopen : outcome.failure? with
      | none => rfl
      | some text =>
        exact absurd ⟨effect, transient, r.replica, by simp [hsettle', Outcome.isSettled, hopen]⟩ hfail
    let r' : Receiver ρ := r.withWork ⟨r.channel.staged, replica,
      r.journal ++ [⟨r.channel.group, r.channel.source, key, effect, outcome⟩]⟩
      (r.channel.stats.count outcome)
    have hfirst : (carryOut A key transient effect).perform r = (.ok (), r') := by
      simp only [carryOut, perform_get_bind, hsettle, perform_set_bind, hsettled]
      rfl
    obtain ⟨replica', journal, stats, hrest, htally⟩ := ih (r := r') hsettings
    refine ⟨replica', journal, stats, ?_, htally.trans ?_⟩
    · rw [carryOutAll, perform_bind_ok hfirst, hrest]
      rfl
    · show Effect.tallyAll A settings transient rest (replica, (r.channel.stats.count outcome).outcomes) = _
      rw [TargetStats.outcomes_count]
      show _ = Effect.tallyAll A settings transient rest (_, _)
      rw [hsettle']

theorem applyPacket_tallies (hfail : ¬ A.CanFail settings) (p : Packet) {r : Receiver ρ}
    (hsettings : r.channel.settings = settings) : ∃ w stats,
    (applyPacket A p).perform r = (.ok (), r.withWork w stats) ∧
      (r.withWork w stats).takings = p.tally A settings r.takings := by
  obtain ⟨⟨effects, staged⟩, heffects⟩ : ∃ out, p.payload.effects r.channel.staged = out := ⟨_, rfl⟩
  obtain ⟨replica, journal, stats, hall, htally⟩ := carryOutAll_tallies hfail p.key p.transient
    effects (r := { r with channel := { r.channel with staged } }) hsettings
  refine ⟨⟨staged, replica, journal⟩, stats, ?_, ?_⟩
  · simp only [applyPacket, perform_get_bind, heffects, onChannel, perform_modify_bind]
    rw [hall]
    rfl
  · have htally' : Effect.tallyAll A settings p.transient effects
        (r.takings.replica, r.takings.counts) = (replica, stats.outcomes) := htally.symm
    simp only [Packet.tally, show p.payload.effects r.takings.staged = _ from heffects, htally']
    rfl

/-- Packets that come next are applied in their order. -/
theorem applyPackets_tallies (hfail : ¬ A.CanFail settings) {first : Nat}
    (hkeyed : KeyedFrom first ps) (hnew : base < first) {r : Receiver ρ}
    (hsettings : r.channel.settings = settings) : ∃ w stats,
    (applyPackets A ps).perform r = (.ok (), r.withWork w stats) ∧
      (r.withWork w stats).takings = takeInAll A settings base ps r.takings := by
  induction ps generalizing r first with
  | nil => exact ⟨r.work, r.channel.stats, rfl, rfl⟩
  | cons p ps ih =>
    obtain ⟨w, stats, hfirst, htally⟩ := applyPacket_tallies hfail p hsettings
    obtain ⟨w', stats', hrest, htally'⟩ := ih hkeyed.2 (Nat.lt_succ_of_lt hnew)
      (r := r.withWork w stats) hsettings
    refine ⟨w', stats', ?_, ?_⟩
    · rw [applyPackets, perform_bind_ok hfirst, hrest]
      rfl
    · refine htally'.trans ?_
      rw [htally]
      show _ = takeInAll A settings base ps (p.takeIn A settings base r.takings)
      rw [takeIn_of_lt (by rw [hkeyed.1]; exact hnew)]

end Receiver

/-! ## Packets that are held back -/

/-- The packets of the open bulk. -/
def TargetChannel.held (c : TargetChannel) : List Packet := c.bulk.elim [] (·.packets)

theorem TargetChannel.held_of_none {c : TargetChannel} (hbulk : c.bulk = none) : c.held = [] := by
  rw [held, hbulk]
  rfl

theorem TargetChannel.held_of_some {c : TargetChannel} {bulk : Bulk} (hbulk : c.bulk = some bulk) :
    c.held = bulk.packets := by
  rw [held, hbulk]
  rfl

/-- The receiver consumed `ps`, whose keys go on from `first`, when it had consumed all up to `base`
before and had the takings `start`. It applied a first part of them, confirmed just that, and holds back
the rest. -/
structure Receiver.Lags (A : Applier ρ) (settings : ConflictSettings) (base first : Nat)
    (start : Takings ρ) (ps : List Packet) (r : Receiver ρ) : Prop where
  active : r.channel.state = .active
  configured : r.channel.settings = settings
  keyed : KeyedFrom first ps
  last : r.channel.lastReceived = max base (first + ps.length - 1)
  opened : ∀ bulk, r.channel.bulk = some bulk → bulk.packets ≠ []
  confirms : base ≤ r.channel.lastConfirmed
  lag : r.channel.lastConfirmed + r.channel.held.length = r.channel.lastReceived
  parts : ∃ applied, ps = applied ++ r.channel.held ∧
    r.takings = takeInAll A settings base applied start

namespace Receiver.Lags

variable {first : Nat} {start : Takings ρ} {r : Receiver ρ}

/-- Without a bulk nothing lags behind. -/
theorem all (h : r.Lags A settings base first start ps) (hbulk : r.channel.bulk = none) :
    r.takings = takeInAll A settings base ps start ∧
      r.channel.lastConfirmed = r.channel.lastReceived := by
  obtain ⟨applied, hparts, htakings⟩ := h.parts
  have hlag := h.lag
  rw [TargetChannel.held_of_none hbulk] at hparts hlag
  rw [List.append_nil] at hparts
  exact ⟨hparts ▸ htakings, hlag⟩

/-- Nothing is held back while packets come again. -/
theorem bulk_of_last (h : r.Lags A settings base first start ps) (hlast : r.channel.lastReceived = base) :
    r.channel.bulk = none := by
  cases hbulk : r.channel.bulk with
  | none => rfl
  | some bulk =>
    have hlag := h.lag
    have hconfirms := h.confirms
    rw [TargetChannel.held_of_some hbulk] at hlag
    have hpos := List.length_pos_iff.2 (h.opened bulk hbulk)
    omega

/-- What is held back comes right behind what is confirmed. -/
theorem held_keyed (h : r.Lags A settings base first start ps) :
    KeyedFrom (r.channel.lastConfirmed + 1) r.channel.held := by
  obtain ⟨applied, hparts, -⟩ := h.parts
  have hkeyed := h.keyed
  have hlag := h.lag
  have hlast := h.last
  have hconfirms := h.confirms
  have hlength := congrArg List.length hparts
  rw [hparts, keyedFrom_append] at hkeyed
  rw [List.length_append] at hlength
  by_cases hnone : r.channel.held = []
  · rw [hnone]
    trivial
  · have hpos := List.length_pos_iff.2 hnone
    rw [show r.channel.lastConfirmed + 1 = first + applied.length by omega]
    exact hkeyed.2

/-- The end of a bulk makes up for the lag. -/
theorem flush (h : r.Lags A settings base first start ps) (hfail : ¬ A.CanFail settings) :
    ∃ r', (flushBulk A).perform r = (.ok (), r') ∧ r'.Lags A settings base first start ps ∧
      r'.channel.bulk = none ∧ r'.channel.lastReceived = r.channel.lastReceived := by
  cases hbulk : r.channel.bulk with
  | none =>
    refine ⟨r, ?_, h, hbulk, rfl⟩
    simp only [flushBulk, perform_get_bind, hbulk]
    rfl
  | some bulk =>
    have hne := h.opened bulk hbulk
    have hkeyed := h.held_keyed
    have hlag := h.lag
    have hconfirms := h.confirms
    obtain ⟨applied, hparts, htakings⟩ := h.parts
    rw [TargetChannel.held_of_some hbulk] at hkeyed hlag hparts
    let r₀ : Receiver ρ := { r with channel := { r.channel with bulk := none } }
    obtain ⟨w, stats, happly, htally⟩ := applyPackets_tallies hfail hkeyed
      (Nat.lt_succ_of_le hconfirms) (r := r₀) h.configured
    obtain ⟨last, hlast⟩ := Option.ne_none_iff_exists'.1 (mt List.getLast?_eq_none_iff.1 hne)
    have hkey := hkeyed.getLast? hne
    rw [hlast, Option.map_some, Option.some.injEq] at hkey
    have hconfirmed : (r.channel.confirmation.advance last.key).lastConfirmed
        = r.channel.lastReceived := by
      rw [Confirmation.lastConfirmed_advance]
      have : r.channel.confirmation.lastConfirmed = r.channel.lastConfirmed := rfl
      omega
    let r₁ := r₀.withWork w stats
    refine ⟨{ r₁ with channel := { r₁.channel with
      confirmation := r.channel.confirmation.advance last.key } }, ?_, ?_, rfl, rfl⟩
    · simp only [flushBulk, perform_get_bind, hbulk, perform_onChannel_bind]
      rw [perform_bind_ok happly]
      simp only [hlast]
      rfl
    · refine ⟨h.active, h.configured, h.keyed, h.last, (fun _ hopen => by cases hopen), ?_, ?_, ps, ?_, ?_⟩
      · show base ≤ (r.channel.confirmation.advance last.key).lastConfirmed
        omega
      · exact hconfirmed
      · exact (List.append_nil ps).symm
      · show r₁.takings = _
        rw [htally, hparts, takeInAll_append, ← htakings]
        rfl

theorem counted (h : r.Lags A settings base first start ps) :
    r.counted.Lags A settings base first start ps :=
  ⟨h.active, h.configured, h.keyed, h.last, h.opened, h.confirms, h.lag, h.parts⟩

/-- The packet behind those that were consumed. -/
theorem key_next (h : r.Lags A settings base first start ps) (hkeyed : KeyedFrom first (ps ++ [p])) :
    p.key = first + ps.length ∧ r.channel.lastReceived = max base (p.key - 1) := by
  have hkey : p.key = first + ps.length := (keyedFrom_append.1 hkeyed).2.1
  exact ⟨hkey, by rw [hkey]; exact h.last⟩

/-- A packet that comes again is settled again at once, unless it is a phase of a transaction. -/
theorem again (h : r.Lags A settings base first start ps) (hfail : ¬ A.CanFail settings)
    (hkeyed : KeyedFrom first (ps ++ [p])) (hagain : p.key ≤ base) (hnumbered : base + 1 < 2 ^ 64) :
    ∃ r', (consume A p).perform r = (.ok r'.channel.lastConfirmed, r') ∧
      r'.Lags A settings base first start (ps ++ [p]) := by
  obtain ⟨hkey, hlast⟩ := h.key_next hkeyed
  have hbulk := h.bulk_of_last (by omega)
  obtain ⟨htakings, hconfirmed⟩ := h.all hbulk
  have hconfirms := h.confirms
  have hreach : max base (p.key - 1) = max base (first + (ps ++ [p]).length - 1) := by
    rw [List.length_append, List.length_singleton]
    omega
  have hlags : ∀ w stats, (r.countedAgain.withWork w stats).takings
      = p.takeIn A settings base r.takings →
      (r.countedAgain.withWork w stats).Lags A settings base first start (ps ++ [p]) :=
    fun w stats htook => ⟨h.active, h.configured, hkeyed, hlast.trans hreach, h.opened, h.confirms, h.lag,
      ps ++ [p], by
        rw [show (r.countedAgain.withWork w stats).channel.held = [] from TargetChannel.held_of_none hbulk,
          List.append_nil],
      by rw [htook, htakings, takeInAll_concat]⟩
  have hreceived : Received (fun k => ⟨k, 0, false, false, .batch []⟩) r.channel :=
    .all hbulk hconfirmed.symm
  rw [perform_consume_of_takes ⟨h.active, by omega, by omega⟩, if_pos (by omega),
    perform_replay (fun _ => rfl) hreceived (by omega)]
  cases hphase : p.payload.isPhase with
  | true =>
    rw [if_neg (by simp)]
    exact ⟨_, rfl, hlags r.work _ (if_pos ⟨hagain, hphase⟩).symm⟩
  | false =>
    obtain ⟨w, stats, happly, htally⟩ := applyPacket_tallies hfail p (r := r.countedAgain) h.configured
    rw [if_pos ⟨by omega, rfl⟩, happly]
    exact ⟨_, rfl, hlags w stats (htally.trans (if_neg (by simp [hphase])).symm)⟩

/-- The next packet of a bulk waits behind the others, and nothing more is confirmed. -/
theorem holdBack (h : r.Lags A settings base first start ps) (id : UInt64)
    (hkeyed : KeyedFrom first (ps ++ [p])) (hnew : base < p.key) :
    ({ r with channel := (r.channel.holdBack id p).tookIn p.key } : Receiver ρ).Lags A settings base
      first start (ps ++ [p]) := by
  obtain ⟨hkey, hlast⟩ := h.key_next hkeyed
  have hlag := h.lag
  obtain ⟨applied, hparts, htakings⟩ := h.parts
  have hheld : KeyedFrom (r.channel.lastConfirmed + 1) (r.channel.held ++ [p]) :=
    keyedFrom_append.2 ⟨h.held_keyed, by omega, trivial⟩
  have hconfirmed : ((r.channel.holdBack id p).tookIn p.key).lastConfirmed = r.channel.lastConfirmed := by
    obtain ⟨q, qs, hcons⟩ := List.exists_cons_of_ne_nil (List.concat_ne_nil p r.channel.held)
    rw [hcons] at hheld
    have hopen : (r.channel.holdBack id p).bulk = some ⟨id, q :: qs⟩ :=
      congrArg (fun packets => some (Bulk.mk id packets)) hcons
    exact TargetChannel.lastConfirmed_tookIn_held hopen hheld.1
  refine ⟨h.active, h.configured, hkeyed, ?_, fun bulk hbulk => ?_, ?_, ?_, applied, ?_, htakings⟩
  · show p.key = _
    rw [List.length_append, List.length_singleton]
    omega
  · cases hbulk
    exact List.append_ne_nil_of_right_ne_nil _ (List.cons_ne_nil _ _)
  · rw [hconfirmed]
    exact h.confirms
  · rw [hconfirmed]
    show _ + (r.channel.held ++ [p]).length = p.key
    rw [List.length_append, List.length_singleton]
    omega
  · rw [hparts, List.append_assoc]
    rfl

/-- The next packet is applied behind all before it, or held back with its bulk. -/
theorem next (h : r.Lags A settings base first start ps) (hfail : ¬ A.CanFail settings)
    (hkeyed : KeyedFrom first (ps ++ [p])) (hnew : base < p.key) (hnumbered : p.key < 2 ^ 64) :
    ∃ r', (consume A p).perform r = (.ok r'.channel.lastConfirmed, r') ∧
      r'.Lags A settings base first start (ps ++ [p]) ∧ (p.bulk = none → r'.channel.bulk = none) := by
  obtain ⟨hkey, hlast⟩ := h.key_next hkeyed
  suffices hreceives : ∃ r', (receiveNext A p).perform r = (.ok (), r') ∧
      r'.Lags A settings base first start (ps ++ [p]) ∧ (p.bulk = none → r'.channel.bulk = none) by
    obtain ⟨r', hdone, hlags⟩ := hreceives
    refine ⟨r', ?_, hlags⟩
    rw [perform_consume_of_takes ⟨h.active, by omega, by omega⟩, if_neg (by omega), hdone]
  obtain ⟨r₁, hflush, h₁, hbulk, hsame⟩ := h.counted.flush hfail
  cases hid : p.bulk with
  | none =>
    obtain ⟨w, stats, happly, htally⟩ := applyPacket_tallies hfail p h₁.configured
    obtain ⟨htakings, hconfirmed⟩ := h₁.all hbulk
    let r₂ := r₁.withWork w stats
    have hreach : r₂.channel.lastReceived + 1 = p.key := by
      show r₁.channel.lastReceived + 1 = p.key
      rw [hsame]
      show r.channel.lastReceived + 1 = p.key
      omega
    obtain ⟨-, hthen⟩ := TargetChannel.tookIn_applied (c := r₂.channel)
      (fun k => ⟨k, 0, false, false, .batch []⟩) hbulk hconfirmed.symm
    rw [hreach] at hthen
    refine ⟨{ r₂ with channel := r₂.channel.tookIn p.key }, ?_, ?_, fun _ => hbulk⟩
    · rw [perform_receiveNext_single hid, perform_bind_ok hflush, perform_bind_ok happly]
      rfl
    · have hnone : (r₂.channel.tookIn p.key).held = [] :=
        TargetChannel.held_of_none hbulk
      refine ⟨h₁.active, h₁.configured, hkeyed, ?_, fun bulk hopen => ?_, ?_, ?_, ps ++ [p], ?_, ?_⟩
      · show p.key = _
        rw [List.length_append, List.length_singleton]
        omega
      · cases hbulk.symm.trans hopen
      · rw [hthen]
        exact Nat.le_of_lt hnew
      · rw [hthen, hnone]
        rfl
      · rw [hnone, List.append_nil]
      · show r₂.takings = _
        rw [takeInAll_concat, ← htakings, takeIn_of_lt hnew]
        exact htally
  | some id =>
    rw [perform_receiveNext_bulk hid]
    by_cases hother : r.channel.bulk.any (·.id ≠ id) = true
    · rw [if_pos hother, perform_bind_ok hflush]
      exact ⟨_, rfl, h₁.holdBack id hkeyed hnew, fun hnone => by cases hnone⟩
    · rw [if_neg hother]
      exact ⟨_, rfl, h.counted.holdBack id hkeyed hnew, fun hnone => by cases hnone⟩

theorem consume (h : r.Lags A settings base first start ps) (hfail : ¬ A.CanFail settings)
    (hkeyed : KeyedFrom first (ps ++ [p])) (hbase : base + 1 < 2 ^ 64) (hnumbered : p.key < 2 ^ 64) :
    ∃ r', (Receiver.consume A p).perform r = (.ok r'.channel.lastConfirmed, r') ∧
      r'.Lags A settings base first start (ps ++ [p]) ∧
      (r.channel.bulk = none → p.bulk = none → r'.channel.bulk = none) := by
  by_cases hagain : p.key ≤ base
  · obtain ⟨r', hdone, hlags⟩ := h.again hfail hkeyed hagain hbase
    refine ⟨r', hdone, hlags, fun _ _ => hlags.bulk_of_last ?_⟩
    have hkey := (h.key_next hkeyed).1
    rw [hlags.last, List.length_append, List.length_singleton]
    omega
  · obtain ⟨r', hdone, hlags, hnone⟩ := h.next hfail hkeyed (Nat.lt_of_not_le hagain) hnumbered
    exact ⟨r', hdone, hlags, fun _ => hnone⟩

theorem consumeBatch (h : r.Lags A settings base first start ps) (hfail : ¬ A.CanFail settings)
    (hkeyed : KeyedFrom first (ps ++ qs)) (hbase : base + 1 < 2 ^ 64)
    (hnumbered : first + (ps ++ qs).length ≤ 2 ^ 64) :
    ∃ r', (Receiver.consumeBatch A qs).perform r = (.ok r'.channel.lastConfirmed, r') ∧
      r'.Lags A settings base first start (ps ++ qs) ∧
      (r.channel.bulk = none → (∀ q ∈ qs, q.bulk = none) → r'.channel.bulk = none) := by
  induction qs generalizing r ps with
  | nil => exact ⟨r, rfl, (List.append_nil ps).symm ▸ h, fun hbulk _ => hbulk⟩
  | cons q qs ih =>
    rw [List.append_cons] at hkeyed hnumbered ⊢
    have hfront := (keyedFrom_append.1 hkeyed).1
    have hkey := (h.key_next hfront).1
    simp only [List.length_append, List.length_singleton] at hnumbered
    obtain ⟨r₁, hfirst, h₁, hbulk₁⟩ := h.consume hfail hfront hbase (by omega)
    obtain ⟨r', hrest, h', hbulk'⟩ := ih h₁ hkeyed (by
      simp only [List.length_append, List.length_singleton]
      omega)
    refine ⟨r', ?_, h', fun hbulk hnone => ?_⟩
    · rw [perform_consumeBatch_cons, hfirst]
      exact hrest
    · rw [List.forall_mem_cons] at hnone
      exact hbulk' (hbulk₁ hbulk hnone.1) hnone.2

/-- What was made of the packets is made of those that are confirmed. -/
theorem takings_eq (h : r.Lags A settings base first start ps) : r.takings
    = takeInAll A settings base (ps.filter (·.key ≤ r.channel.lastConfirmed)) start := by
  obtain ⟨applied, hparts, htakings⟩ := h.parts
  have hlag := h.lag
  have hlast := h.last
  have hconfirms := h.confirms
  have hlength := congrArg List.length hparts
  have hheld := h.held_keyed
  have hkeyed := h.keyed
  rw [hparts, keyedFrom_append] at hkeyed
  rw [List.length_append] at hlength
  have happlied : applied.filter (·.key ≤ r.channel.lastConfirmed) = applied :=
    List.filter_eq_self.2 fun p hp => by
      have hbound := (hkeyed.1.bounds hp).2
      simp only [decide_eq_true_eq]
      omega
  have hwaiting : r.channel.held.filter (·.key ≤ r.channel.lastConfirmed) = [] :=
    List.filter_eq_nil_iff.2 fun p hp => by
      have hbound := (hheld.bounds hp).1
      simp only [decide_eq_true_eq]
      omega
  rw [htakings, hparts, List.filter_append, happlied, hwaiting, List.append_nil]

end Receiver.Lags

/-- A channel without an open bulk lags behind in nothing, and can take in packets from any key on up to
the one that comes next. -/
theorem Receiver.lags_start {first : Nat} {r : Receiver ρ} (hactive : r.channel.state = .active)
    (hbulk : r.channel.bulk = none) (hlast : r.channel.lastReceived = r.channel.lastConfirmed)
    (hfirst : first ≤ r.channel.lastReceived + 1) :
    r.Lags A r.channel.settings r.channel.lastReceived first r.takings [] := by
  have hheld : r.channel.held = [] := TargetChannel.held_of_none hbulk
  refine ⟨hactive, rfl, trivial, ?_, fun bulk hopen => ?_, Nat.le_of_eq hlast, ?_, [], ?_, rfl⟩
  · rw [List.length_nil]
    omega
  · cases hbulk.symm.trans hopen
  · rw [hheld, hlast]
    rfl
  · rw [hheld]
    rfl

end Tally

end GroupReplication
