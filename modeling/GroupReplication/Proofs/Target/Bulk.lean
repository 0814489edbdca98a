/-
Bulks are transparent: they hold packets back, but change nothing of what becomes of them. A channel
that is sent packets of bulks has made of them, at any time, just what it would have made of those that
it confirmed had they belonged to no bulk; and at the end of the last bulk, of all of them. The order of
the packets is kept, since whatever belongs to no bulk or to another one ends the open bulk first
(`Lags`), and a copy in memory does not look at what an operation belongs to.
-/
import GroupReplication.Proofs.Table
import GroupReplication.Proofs.Target.Exact
import GroupReplication.Proofs.Target.Tally

namespace GroupReplication

open GroupReplication.Action Packet

/-! ## Packets outside any bulk -/

/-- The operations of a transaction or a batch, outside any bulk if `inner` asks for that. -/
def EntryOperation.unbulkedAll (inner : Bool) (ops : List EntryOperation) : List EntryOperation :=
  if inner then ops.map withoutBulk else ops

/-- The payload outside any bulk. Only a single operation puts its packet into a bulk; the operations of
transactions and batches lose their bulks too if `inner` asks for that. -/
def Payload.unbulked (inner : Bool) : Payload → Payload
  | .entry op => .entry op.withoutBulk
  | .batch ops => .batch (EntryOperation.unbulkedAll inner ops)
  | .transaction phase txn =>
    .transaction phase { txn with operations := EntryOperation.unbulkedAll inner txn.operations }
  | .typeIndex index => .typeIndex index
  | .typeIntroduce descriptor => .typeIntroduce descriptor

def Packet.unbulked (inner : Bool) (p : Packet) : Packet :=
  { p with payload := p.payload.unbulked inner }

/-- What is staged, up to the bulks that are taken from the operations of transactions. -/
def Staged.unbulked (inner : Bool) (staged : Staged) : Staged :=
  if inner then staged.mapValues (·.map EntryOperation.withoutBulk) else staged

def Effect.unbulked : Effect → Effect
  | .entry op => .entry op.withoutBulk
  | effect => effect

namespace EntryOperation

variable {inner : Bool} {ops ops' : List EntryOperation}

theorem withoutBulk_withoutBulk (op : EntryOperation) : op.withoutBulk.withoutBulk = op.withoutBulk := by
  cases op <;> rfl

theorem bulk_withoutBulk (op : EntryOperation) : op.withoutBulk.bulk = none := by
  cases op <;> rfl

theorem isEmpty_unbulkedAll : (unbulkedAll inner ops).isEmpty = ops.isEmpty := by
  cases inner <;> cases ops <;> rfl

theorem unbulkedAll_unbulkedAll : unbulkedAll inner (unbulkedAll inner ops) = unbulkedAll inner ops := by
  cases inner with
  | false => rfl
  | true =>
    show (ops.map withoutBulk).map withoutBulk = ops.map withoutBulk
    rw [List.map_map]
    exact List.map_congr_left fun op _ => withoutBulk_withoutBulk op

/-- Operations that agree so far agree outside any bulk. -/
theorem map_unbulked_of_unbulkedAll (h : unbulkedAll inner ops = unbulkedAll inner ops') :
    (ops.map Effect.entry).map Effect.unbulked = (ops'.map Effect.entry).map Effect.unbulked := by
  have hall : ∀ ops : List EntryOperation, (ops.map Effect.entry).map Effect.unbulked
      = (ops.map withoutBulk).map Effect.entry := fun ops => by
    rw [List.map_map, List.map_map]
    rfl
  rw [hall, hall]
  cases inner with
  | false => rw [show ops = ops' from h]
  | true => rw [show ops.map withoutBulk = ops'.map withoutBulk from h]

end EntryOperation

namespace Staged

open EntryOperation (unbulkedAll)

variable {inner : Bool} {staged staged' : Staged}

theorem unbulked_eq (inner : Bool) (staged : Staged) :
    staged.unbulked inner = staged.mapValues (unbulkedAll inner) := by
  cases inner with
  | false => exact (List.map_id staged).symm
  | true => rfl

theorem unbulked_insert (id : UInt64) (ops : List EntryOperation) :
    Staged.unbulked inner (staged.insert id ops)
      = (staged.unbulked inner).insert id (unbulkedAll inner ops) := by
  rw [unbulked_eq, unbulked_eq, Table.mapValues_insert]

theorem unbulked_erase (id : UInt64) :
    Staged.unbulked inner (staged.erase id) = (staged.unbulked inner).erase id := by
  rw [unbulked_eq, unbulked_eq, Table.mapValues_erase]

theorem unbulkedAll_get? (h : staged.unbulked inner = staged'.unbulked inner) (id : UInt64) :
    unbulkedAll inner ((staged.get? id).getD []) = unbulkedAll inner ((staged'.get? id).getD []) := by
  have hget : ∀ staged : Staged, unbulkedAll inner ((staged.get? id).getD [])
      = ((staged.unbulked inner).get? id).getD [] := fun staged => by
    rw [unbulked_eq, Table.get?_mapValues]
    cases staged.get? id with
    | none => cases inner <;> rfl
    | some ops => rfl
  rw [hget, hget, h]

end Staged

namespace Payload

open EntryOperation (unbulkedAll)

variable {inner : Bool}

theorem isPhase_unbulked (p : Payload) : (p.unbulked inner).isPhase = p.isPhase := by
  cases p <;> rfl

/-- The effects of a payload outside any bulk are those of the payload outside any bulk, wherever they
come from. -/
theorem effects_unbulked (p : Payload) {staged staged' : Staged}
    (h : staged.unbulked inner = staged'.unbulked inner) :
    (p.effects staged).1.map Effect.unbulked
        = ((p.unbulked inner).effects staged').1.map Effect.unbulked ∧
      Staged.unbulked inner (p.effects staged).2
        = Staged.unbulked inner ((p.unbulked inner).effects staged').2 := by
  cases p with
  | entry op =>
    exact ⟨by simp [effects, unbulked, Effect.unbulked, EntryOperation.withoutBulk_withoutBulk], h⟩
  | batch ops =>
    exact ⟨EntryOperation.map_unbulked_of_unbulkedAll EntryOperation.unbulkedAll_unbulkedAll.symm, h⟩
  | typeIndex | typeIntroduce => exact ⟨rfl, h⟩
  | transaction phase txn =>
    cases phase with
    | prepare =>
      refine ⟨rfl, ?_⟩
      show Staged.unbulked inner (staged.insert txn.id txn.operations)
        = Staged.unbulked inner (staged'.insert txn.id (unbulkedAll inner txn.operations))
      rw [Staged.unbulked_insert, Staged.unbulked_insert, EntryOperation.unbulkedAll_unbulkedAll, h]
    | abort =>
      refine ⟨rfl, ?_⟩
      show Staged.unbulked inner (staged.erase txn.id) = Staged.unbulked inner (staged'.erase txn.id)
      rw [Staged.unbulked_erase, Staged.unbulked_erase, h]
    | commit =>
      constructor
      · have hoperations : unbulkedAll inner
            (if txn.operations.isEmpty then (staged.get? txn.id).getD [] else txn.operations)
            = unbulkedAll inner (if (unbulkedAll inner txn.operations).isEmpty
              then (staged'.get? txn.id).getD [] else unbulkedAll inner txn.operations) := by
          rw [EntryOperation.isEmpty_unbulkedAll]
          split
          · exact Staged.unbulkedAll_get? h txn.id
          · exact EntryOperation.unbulkedAll_unbulkedAll.symm
        exact EntryOperation.map_unbulked_of_unbulkedAll hoperations
      · show Staged.unbulked inner (staged.erase txn.id) = Staged.unbulked inner (staged'.erase txn.id)
        rw [Staged.unbulked_erase, Staged.unbulked_erase, h]

end Payload

theorem Packet.bulk_unbulked (inner : Bool) (p : Packet) : (p.unbulked inner).bulk = none := by
  obtain ⟨key, weight, transient, fromGateway, payload⟩ := p
  cases payload with
  | entry op => exact EntryOperation.bulk_withoutBulk op
  | _ => rfl

theorem Packet.KeyedFrom.unbulked {inner : Bool} {first : Nat} {ps : List Packet}
    (h : KeyedFrom first ps) : KeyedFrom first (ps.map (·.unbulked inner)) := by
  induction ps generalizing first with
  | nil => trivial
  | cons p ps ih => exact ⟨h.1, ih h.2⟩

/-! ## What becomes of them on a copy in memory -/

/-- A copy in memory does not look at the bulk of an operation. -/
theorem Effect.settle_unbulked (settings : ConflictSettings) (transient : Bool) (effect : Effect)
    (r : Replica) : effect.unbulked.settle Replica.applier settings transient r
      = effect.settle Replica.applier settings transient r := by
  cases effect with
  | entry op => cases op <;> rfl
  | _ => rfl

theorem Effect.tallyAll_unbulked {settings : ConflictSettings} {transient : Bool}
    {effects effects' : List Effect} (h : effects.map Effect.unbulked = effects'.map Effect.unbulked)
    (w : Replica × TargetStats) : Effect.tallyAll Replica.applier settings transient effects w
      = Effect.tallyAll Replica.applier settings transient effects' w := by
  have hall : ∀ effects : List Effect, Effect.tallyAll Replica.applier settings transient effects w
      = Effect.tallyAll Replica.applier settings transient (effects.map Effect.unbulked) w :=
    fun effects => by
      simp only [Effect.tallyAll, List.foldl_map, Effect.settle_unbulked]
  rw [hall, hall effects', h]

/-- The same takings, up to the bulks that are taken from what is staged. -/
structure Takings.SameUpTo (inner : Bool) (t t' : Takings Replica) : Prop where
  staged : t.staged.unbulked inner = t'.staged.unbulked inner
  replica : t.replica = t'.replica
  counts : t.counts = t'.counts

namespace Takings.SameUpTo

variable {inner : Bool} {t t' : Takings Replica} {settings : ConflictSettings}

theorem tally (h : t.SameUpTo inner t') (p : Packet) :
    (p.tally Replica.applier settings t).SameUpTo inner
      ((p.unbulked inner).tally Replica.applier settings t') := by
  obtain ⟨heffects, hstaged⟩ := p.payload.effects_unbulked h.staged
  have hall : Effect.tallyAll Replica.applier settings p.transient (p.payload.effects t.staged).1
      (t.replica, t.counts) = Effect.tallyAll Replica.applier settings p.transient
        ((p.payload.unbulked inner).effects t'.staged).1 (t'.replica, t'.counts) := by
    rw [h.replica, h.counts, Effect.tallyAll_unbulked heffects]
  exact ⟨hstaged, congrArg Prod.fst hall, congrArg Prod.snd hall⟩

theorem takeInAll (h : t.SameUpTo inner t') (base : Nat) (ps : List Packet) :
    (Packet.takeInAll Replica.applier settings base ps t).SameUpTo inner
      (Packet.takeInAll Replica.applier settings base (ps.map (·.unbulked inner)) t') := by
  induction ps generalizing t t' with
  | nil => exact h
  | cons p ps ih =>
    have hfirst : (p.takeIn Replica.applier settings base t).SameUpTo inner
        ((p.unbulked inner).takeIn Replica.applier settings base t') := by
      have hphase : (p.unbulked inner).payload.isPhase = p.payload.isPhase :=
        p.payload.isPhase_unbulked
      rw [Packet.takeIn, Packet.takeIn, hphase, show (p.unbulked inner).key = p.key from rfl]
      split
      · exact h
      · exact h.tally p
    exact ih hfirst

end Takings.SameUpTo

namespace Receiver

/-- What a channel without an open bulk makes of packets, and what it has made of them once the last
bulk has ended. Packets that belong to no bulk leave none open. -/
theorem consumeBatch_flushBulk (r : Receiver Replica) {first : Nat} (ps : List Packet)
    (hactive : r.channel.state = .active) (hsettled : r.channel.Settled) (hkeyed : KeyedFrom first ps)
    (hfirst : first ≤ r.channel.lastReceived + 1) (hnext : r.channel.lastReceived + 1 < 2 ^ 64)
    (hnumbered : first + ps.length ≤ 2 ^ 64) :
    let A := Replica.applier
    let base := r.channel.lastReceived
    let last := max base (first + ps.length - 1)
    let all := takeInAll A r.channel.settings base ps r.takings
    ∃ r' r'', (consumeBatch A ps).perform r = (.ok r'.channel.lastConfirmed, r') ∧
      (flushBulk A).perform r' = (.ok (), r'') ∧
      r'.takings = takeInAll A r.channel.settings base
        (ps.filter (·.key ≤ r'.channel.lastConfirmed)) r.takings ∧
      base ≤ r'.channel.lastConfirmed ∧ r'.channel.lastConfirmed ≤ last ∧
      r''.takings = all ∧ r''.channel.lastConfirmed = last ∧
      ((∀ p ∈ ps, p.bulk = none) → r'.takings = all ∧ r'.channel.lastConfirmed = last) := by
  intro A base last all
  obtain ⟨r', hdone, hlags, hnone⟩ :=
    (lags_start (A := A) hactive hsettled.bulk hsettled.last hfirst).consumeBatch Replica.not_canFail
      hkeyed hnext hnumbered
  obtain ⟨r'', hflush, hlags'', hbulk, hsame⟩ := hlags.flush Replica.not_canFail
  obtain ⟨htakings, hconfirmed⟩ := hlags''.all hbulk
  have hlag := hlags.lag
  have hlast : r'.channel.lastReceived = last := hlags.last
  refine ⟨r', r'', hdone, hflush, hlags.takings_eq, hlags.confirms, by omega, htakings,
    hconfirmed.trans (hsame.trans hlast), fun hplain => ?_⟩
  obtain ⟨htook, hall⟩ := hlags.all (hnone hsettled.bulk hplain)
  exact ⟨htook, hall.trans hlast⟩

/-- Outside any bulk the same packets are all taken in at once, with the same outcome. -/
theorem consumeBatch_unbulked (r : Receiver Replica) {first : Nat} (inner : Bool) (ps : List Packet)
    (hactive : r.channel.state = .active) (hsettled : r.channel.Settled) (hkeyed : KeyedFrom first ps)
    (hfirst : first ≤ r.channel.lastReceived + 1) (hnext : r.channel.lastReceived + 1 < 2 ^ 64)
    (hnumbered : first + ps.length ≤ 2 ^ 64) :
    let A := Replica.applier
    let base := r.channel.lastReceived
    let last := max base (first + ps.length - 1)
    let all := takeInAll A r.channel.settings base ps r.takings
    ∃ r' r'', (consumeBatch A (ps.map (·.unbulked inner))).perform r = (.ok last, r') ∧
      (flushBulk A).perform r' = (.ok (), r'') ∧ all.SameUpTo inner r'.takings ∧
      all.SameUpTo inner r''.takings ∧ r''.channel.lastConfirmed = last := by
  intro A base last all
  have hplain : ∀ p ∈ ps.map (·.unbulked inner), p.bulk = none := fun p hp => by
    obtain ⟨q, -, rfl⟩ := List.mem_map.1 hp
    exact q.bulk_unbulked inner
  have hsame : all.SameUpTo inner
      (takeInAll A r.channel.settings base (ps.map (·.unbulked inner)) r.takings) :=
    Takings.SameUpTo.takeInAll ⟨rfl, rfl, rfl⟩ base ps
  obtain ⟨r', r'', hdone, hflush, -, -, -, hended, hlast, hwhole⟩ :=
    consumeBatch_flushBulk r (ps.map (·.unbulked inner)) hactive hsettled hkeyed.unbulked hfirst hnext
      (by rw [List.length_map]; exact hnumbered)
  obtain ⟨htakings, hconfirmed⟩ := hwhole hplain
  rw [List.length_map] at hlast hconfirmed
  rw [hconfirmed] at hdone
  exact ⟨r', r'', hdone, hflush, htakings ▸ hsame, hended ▸ hsame, hlast⟩

/-- Packets that skip a key are not taken in, nor are any where there is no next key. -/
theorem consumeBatch_stays {r : Receiver Replica} {first : Nat} {ps : List Packet}
    (hkeyed : KeyedFrom first ps)
    (hstuck : ¬ (first ≤ r.channel.lastReceived + 1 ∧ r.channel.lastReceived + 1 < 2 ^ 64)) :
    ((consumeBatch Replica.applier ps).perform r).2 = r := by
  cases ps with
  | nil => rfl
  | cons p ps =>
    have hrefused : ¬ r.channel.Takes p := fun htakes =>
      hstuck ⟨hkeyed.1 ▸ htakes.reached, htakes.numbered⟩
    obtain ⟨e, he⟩ := consumeBatch_refused (A := Replica.applier) ps hrefused
    rw [he]

/-- Take a channel that is active and has no bulk open, whatever it was asked so far, over any copy and
with anything staged, and send it packets with consecutive keys of 64 bits. All calls succeed if no key
is skipped and there is a next one to begin with. At any point the copy and what is staged are those of
a channel that started alike and was sent the packets up to the confirmed key outside any bulk; and when
the open bulk ends, so are the confirmed key and the counts of what became of effects, for all the
packets. If `inner` has transactions and batches lose the bulks of their operations too, then what is
staged is the same up to these. -/
theorem bulks_transparent (group source : String) (settings : ConflictSettings) (replica₀ : Replica)
    (calls : List ChannelCall) (staged : Staged) (replica : Replica) (journal : List JournalEntry)
    (inner : Bool) (first : Nat) (ps : List Packet) :
    let A := Replica.applier
    let c := ((fresh group source settings replica₀).calls calls).channel
    let r : Receiver Replica := ⟨{ c with staged }, replica, journal⟩
    c.state = .active → c.bulk = none → KeyedFrom first ps → first + ps.length ≤ 2 ^ 64 →
    let sent := (consumeBatch A ps).perform r
    let key := sent.2.channel.lastConfirmed
    let plain := (consumeBatch A ((ps.filter (·.key ≤ key)).map (·.unbulked inner))).perform r
    let ended := (flushBulk A).perform sent.2
    let plainAll := (consumeBatch A (ps.map (·.unbulked inner))).perform r
    let plainEnded := (flushBulk A).perform plainAll.2
    (first ≤ c.lastReceived + 1 → c.lastReceived + 1 < 2 ^ 64 →
      sent.1 = .ok key ∧ plain.1 = .ok key ∧ ended.1 = .ok () ∧
      plainAll.1 = .ok ended.2.channel.lastConfirmed ∧ plainEnded.1 = .ok ()) ∧
    sent.2.replica = plain.2.replica ∧
    sent.2.channel.staged.unbulked inner = plain.2.channel.staged.unbulked inner ∧
    ended.2.replica = plainEnded.2.replica ∧
    ended.2.channel.staged.unbulked inner = plainEnded.2.channel.staged.unbulked inner ∧
    ended.2.channel.lastConfirmed = plainEnded.2.channel.lastConfirmed ∧
    ended.2.channel.stats.outcomes = plainEnded.2.channel.stats.outcomes := by
  intro A c r hactive hbulk hkeyed hnumbered sent key plain ended plainAll plainEnded
  have hc : c.Settled :=
    (calls_exact (TargetChannel.settled_fresh group source settings).exact calls).settled hbulk
  have hsettled : r.channel.Settled := ⟨hc.bulk, hc.last⟩
  by_cases hstarts : first ≤ c.lastReceived + 1 ∧ c.lastReceived + 1 < 2 ^ 64
  · obtain ⟨hfirst, hnext⟩ := hstarts
    obtain ⟨r₁, r₁', hsent, hended, htakings, hle, hge, hall, hlast, -⟩ :=
      consumeBatch_flushBulk r ps hactive hsettled hkeyed hfirst hnext hnumbered
    have hkey : key = r₁.channel.lastConfirmed := congrArg (·.2.channel.lastConfirmed) hsent
    rw [← hkey] at hsent htakings hle hge
    have hkept := hkeyed.filter_upTo key
    have hfewer := List.length_filter_le (fun p : Packet => decide (p.key ≤ key)) ps
    obtain ⟨r₂, -, hplain, -, hupTo, -⟩ := consumeBatch_unbulked r inner (ps.filter (·.key ≤ key))
      hactive hsettled (by rw [hkept]; exact hkeyed.take _) hfirst hnext (by omega)
    rw [← htakings] at hupTo
    have hreach : max r.channel.lastReceived (first + (ps.filter (·.key ≤ key)).length - 1) = key := by
      have hlength := congrArg List.length hkept
      have hsame : r.channel.lastReceived = c.lastReceived := rfl
      rw [List.length_take] at hlength
      omega
    obtain ⟨r₃, r₃', hplainAll, hplainEnded, -, hwhole, hlast'⟩ :=
      consumeBatch_unbulked r inner ps hactive hsettled hkeyed hfirst hnext hnumbered
    rw [← hall] at hwhole
    rw [← hlast] at hplainAll hlast'
    have hplain' : plain = (.ok key, r₂) := hreach ▸ hplain
    have hsent' : sent = (.ok key, r₁) := hsent
    have hended' : ended = (.ok (), r₁') := by
      simp only [ended, hsent']
      exact hended
    have hplainAll' : plainAll = (.ok r₁'.channel.lastConfirmed, r₃) := hplainAll
    have hplainEnded' : plainEnded = (.ok (), r₃') := by
      simp only [plainEnded, hplainAll']
      exact hplainEnded
    rw [hsent', hplain', hended', hplainEnded', hplainAll']
    exact ⟨fun _ _ => ⟨rfl, rfl, rfl, rfl, rfl⟩, hupTo.replica, hupTo.staged, hwhole.replica,
      hwhole.staged, hlast'.symm, hwhole.counts⟩
  · have hstuck : ¬ (first ≤ r.channel.lastReceived + 1 ∧ r.channel.lastReceived + 1 < 2 ^ 64) := hstarts
    have hsent : sent.2 = r := consumeBatch_stays hkeyed hstuck
    have hplainAll : plainAll.2 = r := consumeBatch_stays hkeyed.unbulked hstuck
    have hplain : plain.2 = r := by
      have hkept : KeyedFrom first (ps.filter (·.key ≤ key)) := by
        rw [hkeyed.filter_upTo]
        exact hkeyed.take _
      exact consumeBatch_stays hkept.unbulked hstuck
    simp only [hsent, hplain, ended, plainEnded, hplainAll, and_self, and_true]
    exact fun hfirst hnext => absurd ⟨hfirst, hnext⟩ hstarts

/-- Two packets of a bulk, the prepare that ends it, and a packet of another bulk. -/
def interleaved : List Packet :=
  [⟨1, 1, false, false, .entry (.write ⟨"Order", "a", 1, [], some 7⟩)⟩,
    ⟨2, 1, false, false, .entry (.write ⟨"Order", "b", 1, [], some 7⟩)⟩,
    ⟨3, 1, false, false, .transaction .prepare ⟨9, [.take ⟨"Order", "a", 1, [], some 7⟩]⟩⟩,
    ⟨4, 1, false, false, .entry (.write ⟨"Order", "c", 1, [], some 8⟩)⟩]

/-- Over a copy that has one of the entries already, the last packet waits for its bulk to end, and comes
to the same then. -/
theorem bulks_transparent_interleaved :
    let A := Replica.applier
    let c := ((fresh "orders" "primary" .standard (.empty false)).calls
      [.requestHandshake, .completeHandshake ⟨1, true, none⟩]).channel
    let r : Receiver Replica :=
      ⟨{ c with staged := [] }, (Replica.empty false).store "b" ⟨"Order", 5, [], [], false⟩, []⟩
    let sent := (consumeBatch A interleaved).perform r
    let ended := (flushBulk A).perform sent.2
    let plainAll := (consumeBatch A (interleaved.map (·.unbulked true))).perform r
    let plainEnded := (flushBulk A).perform plainAll.2
    sent.1 = .ok 3 ∧ plainAll.1 = .ok 4 ∧ (sent.2.replica.entry? "c").isNone = true ∧
      ended.2.replica = plainEnded.2.replica ∧ (ended.2.replica.entry? "c").isSome = true ∧
      ended.2.channel.stats.outcomes = plainEnded.2.channel.stats.outcomes ∧
      ended.2.channel.stats.ignored = 1 := by
  intro A c r sent ended plainAll plainEnded
  obtain ⟨-, -, -, hall, -, -, houtcomes⟩ := bulks_transparent "orders" "primary" .standard
    (.empty false) [.requestHandshake, .completeHandshake ⟨1, true, none⟩] []
    ((Replica.empty false).store "b" ⟨"Order", 5, [], [], false⟩) [] true 1 interleaved
    (by decide +kernel) (by decide +kernel) ⟨rfl, rfl, rfl, rfl, trivial⟩ (by decide)
  -- the two sides are compared as they stand: unfolded, they would run the packets
  have hreplica : ended.2.replica = plainEnded.2.replica := by with_reducible exact hall
  have hcounts : ended.2.channel.stats.outcomes = plainEnded.2.channel.stats.outcomes := by
    with_reducible exact houtcomes
  exact ⟨by decide +kernel, by decide +kernel, by decide +kernel, hreplica, by decide +kernel, hcounts,
    by decide +kernel⟩

end Receiver

end GroupReplication
